import TrojanGo.Tunnel.Address

/-!
# Connections

Segments of the network, a line reader behind the gateway's PROXY header, and a reader that keeps
what it has returned. Each is a lawful reader, so what is read does not depend on the segments.
-/
namespace TrojanGo.Tunnel

open Lib List

/-! ### Rewinding -/

/-- `RewindReader`: a reader that can keep what it returns. -/
structure RewindReader (ρ : Type) where
  raw : ρ
  buf : Bytes := []
  bufReadIdx : Nat := 0
  rewound : Bool := false
  buffering : Bool := false
  bufferSize : Nat := 0

namespace RewindReader

variable {ρ : Type} (inner : Read ρ UInt8)

def bufferLimit : Nat := 1024 * 1024

def read : Read (RewindReader ρ) UInt8 := fun r n =>
  if r.rewound ∧ r.bufReadIdx < r.buf.length then
    let bytes := (r.buf.drop r.bufReadIdx).take n
    ((bytes, none), { r with bufReadIdx := r.bufReadIdx + bytes.length })
  else
    match inner r.raw n with
    | ((bytes, err), raw) =>
      let r := { r with raw := raw, rewound := false }
      if r.buffering ∧ 0 < bytes.length then
        if r.buf.length + bytes.length > bufferLimit then ((bytes, some .refused), r)
        else ((bytes, err), { r with buf := r.buf ++ bytes })
      else ((bytes, err), r)

def rewind (r : RewindReader ρ) : RewindReader ρ := { r with rewound := true, bufReadIdx := 0 }

def stopBuffering (r : RewindReader ρ) : RewindReader ρ := { r with buffering := false }

/-- `SetBufferSize` of a new reader. -/
def setBufferSize (r : RewindReader ρ) (size : Nat) : RewindReader ρ :=
  { r with buffering := true, bufReadIdx := 0, bufferSize := size, buf := [] }

variable {r : RewindReader ρ}

/-- A reader that was not rewound returns the bytes of the reader below. -/
theorem read_bytes (fresh : r.rewound = false) (n : Nat) :
    (read inner r n).1.1 = (inner r.raw n).1.1 := by
  have direct : ¬ (r.rewound ∧ r.bufReadIdx < r.buf.length) := by simp [fresh]
  simp only [read, if_neg direct]
  by_cases kept : r.buffering ∧ 0 < (inner r.raw n).1.1.length
  · grind
  · rw [if_neg kept]

variable {inner} {content : ρ → Bytes} {serves : Nat → ρ → Prop}

def remaining (content : ρ → Bytes) (r : RewindReader ρ) : Bytes :=
  (if r.rewound then r.buf.drop r.bufReadIdx else []) ++ content r.raw

/-- While it keeps what it returns, the reader serves up to its limit. -/
def Serves (serves : Nat → ρ → Prop) (k : Nat) (r : RewindReader ρ) : Prop :=
  (r.buffering = true → r.buf.length + k ≤ bufferLimit) ∧ ∀ k, serves k r.raw

theorem take_append_drop_length (n : Nat) (bytes : Bytes) :
    bytes.take n ++ bytes.drop (bytes.take n).length = bytes := by
  rw [length_take]
  by_cases short : n ≤ bytes.length
  · rw [min_eq_left short, take_append_drop]
  · rw [min_eq_right (by omega), drop_length, append_nil,
      take_of_length_le (by omega)]

/-- Once nothing is left to be read again, the content is that of the reader below. -/
theorem remaining_raw (fresh : ¬ (r.rewound ∧ r.bufReadIdx < r.buf.length)) :
    remaining content r = content r.raw := by
  unfold remaining
  split
  next again =>
    have past : r.buf.length ≤ r.bufReadIdx := Nat.le_of_not_lt fun before => fresh ⟨again, before⟩
    rw [drop_eq_nil_of_le past, nil_append]
  · rw [nil_append]

theorem lawful (inside : inner.Lawful content serves) :
    Read.Lawful (read inner) (remaining content) (Serves serves) where
  fewer k k' r less ready := by
    refine ⟨fun on => ?_, ready.2⟩
    have := ready.1 on
    omega
  ends k r n ready positive empty := by
    have fresh : ¬ (r.rewound ∧ r.bufReadIdx < r.buf.length) := by
      rintro ⟨again, before⟩
      simp [remaining, again] at empty
      omega
    rw [remaining_raw fresh] at empty
    have ended := fun k => inside.ends k r.raw n (ready.2 k) positive empty
    obtain ⟨ran, still, -⟩ := ended 0
    simp only [read, if_neg fresh, ran, length_nil, Nat.lt_irrefl, and_false, if_false]
    exact ⟨trivial, still, ready.1, fun k => (ended k).2.2⟩
  step k r n ready positive room more := by
    by_cases again : r.rewound ∧ r.bufReadIdx < r.buf.length
    · -- what was kept is returned first
      have left : 0 < (r.buf.drop r.bufReadIdx).length := by
        rw [length_drop]
        omega
      simp only [read, if_pos again]
      refine ⟨_, rfl, ?_, length_take_le n _, ?_, ?_, ready.2⟩
      · simpa [length_pos_iff.mp left] using positive.ne'
      · simp only [remaining, again.1, if_true]
        rw [← append_assoc, ← drop_drop, take_append_drop_length]
      · intro on
        have limit := ready.1 on
        show r.buf.length + _ ≤ bufferLimit
        omega
    · rw [remaining_raw again] at more ⊢
      obtain ⟨bytes, ran, filled, short, split, endless⟩ := inside.endless ready.2 positive more
      have some : 0 < bytes.length := length_pos_of_ne_nil filled
      by_cases on : r.buffering = true
      · have limit := ready.1 on
        simp only [read, if_neg again, ran, on, some, and_self, if_true]
        rw [if_neg (by omega)]
        refine ⟨bytes, rfl, filled, short, split, fun _ => ?_, endless⟩
        simp only [length_append]
        omega
      · rw [Bool.not_eq_true] at on
        simp only [read, if_neg again, ran, on, Bool.false_eq_true, false_and, if_false]
        exact ⟨bytes, rfl, filled, short, split, (fun never => by cases never), endless⟩

end RewindReader

/-! ### Network connections -/

structure TCPAddr where
  ip : IP
  port : Nat
  deriving DecidableEq

def isLoopback (ip : IP) : Bool :=
  match to4 ip with
  | some short => short.head? = some 127
  | none => ip = [0, 0, 0, 0, 0, 0, 0, 0, 0, 0, 0, 0, 0, 0, 0, 1]

/-- What the bytes of a connection are read through: nothing, or the buffer that was used for
the PROXY header. -/
inductive Wire where
  | direct (segments : Segments UInt8)
  | proxied (reader : Buffered (Segments UInt8) UInt8)

namespace Wire

def read : Read Wire UInt8
  | .direct segments, n =>
    match segments.read n with
    | (got, segments) => (got, .direct segments)
  | .proxied reader, n =>
    match Buffered.read Segments.read reader n with
    | (got, reader) => (got, .proxied reader)

def content : Wire → Bytes
  | .direct segments => segments.content
  | .proxied reader => reader.remaining Segments.content

def Ready : Wire → Prop
  | .direct _ => True
  | .proxied reader => 0 < reader.size

theorem lawful : Read.Lawful read content fun _ => Ready where
  fewer _ _ _ _ ready := ready
  ends k wire n ready positive empty := by
    cases wire with
    | direct segments => exact Segments.lawful.ends k segments n trivial positive empty
    | proxied reader =>
      obtain ⟨ran, still, ready', -⟩ := (Buffered.lawful Segments.lawful).ends k reader n
        ⟨ready, fun _ => trivial⟩ positive empty
      exact ⟨ran, still, ready'⟩
  step k wire n ready positive room more := by
    cases wire with
    | direct segments => exact Segments.lawful.step k segments n trivial positive room more
    | proxied reader =>
      obtain ⟨bytes, ran, filled, short, split, ready', -⟩ :=
        (Buffered.lawful Segments.lawful).step k reader n ⟨ready, fun _ => trivial⟩ positive room
          more
      exact ⟨bytes, ran, filled, short, split, ready'⟩

end Wire

structure Conn where
  wire : Wire
  localAddr : TCPAddr
  remoteAddr : TCPAddr

/-- A connection as the listener accepts it. -/
structure TCPConn where
  segments : Segments UInt8
  localAddr : TCPAddr
  remoteAddr : TCPAddr

/-! ### The PROXY header -/

inductive ProxyError where
  | listener
  | origin
  | header (reason : ReadError)
  | lengthOrTerminator
  | unsupported
  | address
  | notIPv4
  | notIPv6
  | sourcePort
  | destinationPort
  deriving DecidableEq

def proxyProtocolV1MaxHeader : Nat := 108

def newline : UInt8 := 10

def crlf : Bytes := [13, 10]

/-- The white space of one byte. -/
def isBlank (byte : UInt8) : Bool := byte = 32 ∨ 9 ≤ byte ∧ byte ≤ 13

/-- `strings.Fields`, on ASCII. -/
def fields (line : Bytes) : List Bytes := (line.splitOnP isBlank).filter fun field => field ≠ []

def proxyProtocolPort (raw : Bytes) : Option Nat :=
  match atoi UInt8.toNat raw with
  | none => none
  -- a number that is out of the range of `Atoi` is out of the range of ports too
  | some port => if port < 1 ∨ port > 65535 then none else some port.toNat

def ascii (text : String) : Bytes := text.toList.map fun c => UInt8.ofNat c.toNat

/-- The checks on the header line; the result is the remote and the local address. -/
def parseHeader (parseIP : Bytes → Option IP) (conn : TCPConn) (line : Bytes) :
    Except ProxyError (TCPAddr × TCPAddr) :=
  if line.length > proxyProtocolV1MaxHeader ∨ ¬ crlf <:+ line then .error .lengthOrTerminator
  else
    match fields (line.take (line.length - 2)) with
    | [proxy, protocol] =>
      if proxy = ascii "PROXY" ∧ protocol = ascii "UNKNOWN" then
        .ok (conn.remoteAddr, conn.localAddr)
      else .error .unsupported
    | [proxy, protocol, source, destination, sourcePort, destinationPort] =>
      if proxy ≠ ascii "PROXY" ∨ protocol ≠ ascii "TCP4" ∧ protocol ≠ ascii "TCP6" then
        .error .unsupported
      else
        match parseIP source, parseIP destination with
        | some sourceIP, some destinationIP =>
          if protocol = ascii "TCP4" ∧ ((to4 sourceIP).isNone ∨ (to4 destinationIP).isNone) then
            .error .notIPv4
          else if protocol = ascii "TCP6" ∧ ((to4 sourceIP).isSome ∨ (to4 destinationIP).isSome) then
            .error .notIPv6
          else
            match proxyProtocolPort sourcePort, proxyProtocolPort destinationPort with
            | none, _ => .error .sourcePort
            | some _, none => .error .destinationPort
            | some sourcePort, some destinationPort =>
              .ok (⟨sourceIP, sourcePort⟩, ⟨destinationIP, destinationPort⟩)
        | _, _ => .error .address
    | _ => .error .unsupported

/-- `readProxyProtocolV1`. -/
def readProxyProtocolV1 (parseIP : Bytes → Option IP) (conn : TCPConn) : Except ProxyError Conn :=
  if ¬ isLoopback conn.localAddr.ip then .error .listener
  else if ¬ isLoopback conn.remoteAddr.ip then .error .origin
  else
    let reader : Buffered (Segments UInt8) UInt8 :=
      { size := proxyProtocolV1MaxHeader, source := conn.segments }
    match Buffered.line Segments.read newline (conn.segments.content.length + 1) reader [] with
    | (.error reason, _) => .error (.header reason)
    | (.ok line, reader) =>
      match parseHeader parseIP conn line with
      | .error reason => .error reason
      | .ok (remoteAddr, localAddr) =>
        .ok { wire := .proxied reader, localAddr := localAddr, remoteAddr := remoteAddr }

/-- A header that the gateway may send on this connection: one line that passes the checks. -/
structure ValidHeader (parseIP : Bytes → Option IP) (conn : TCPConn) (header : Bytes)
    (remoteAddr : TCPAddr) : Prop where
  loopback : isLoopback conn.localAddr.ip ∧ isLoopback conn.remoteAddr.ip
  oneLine : ∃ body, header = body ++ [newline] ∧ newline ∉ body
  accepted : ∃ localAddr, parseHeader parseIP conn header = .ok (remoteAddr, localAddr)

theorem readProxyProtocolV1_accepts {parseIP : Bytes → Option IP} {conn : TCPConn}
    {body rest : Bytes} {remoteAddr localAddr : TCPAddr} (listener : isLoopback conn.localAddr.ip)
    (origin : isLoopback conn.remoteAddr.ip) (absent : newline ∉ body)
    (accepted : parseHeader parseIP conn (body ++ [newline]) = .ok (remoteAddr, localAddr))
    (arrives : conn.segments.content = body ++ [newline] ++ rest) :
    ∃ wire, readProxyProtocolV1 parseIP conn = .ok ⟨wire, localAddr, remoteAddr⟩ ∧
      wire.content = rest ∧ wire.Ready := by
  let reader : Buffered (Segments UInt8) UInt8 :=
    { size := proxyProtocolV1MaxHeader, source := conn.segments }
  have whole : reader.remaining Segments.content = body ++ newline :: rest := by
    simpa [Buffered.remaining, reader] using arrives
  have size : 0 < reader.size := by simp [reader, proxyProtocolV1MaxHeader]
  obtain ⟨reader', ran, left, ready, -⟩ :=
    @Buffered.line_lawful _ _ _ _ _ newline rest _ Segments.lawful (conn.segments.content.length + 1)
      reader [] body ⟨size, fun _ => trivial⟩ absent whole (Nat.lt_succ_self _)
  refine ⟨.proxied reader', ?_, left, ready.1⟩
  simp only [readProxyProtocolV1, listener, origin, not_true, if_false]
  rw [nil_append] at ran
  simp only [reader] at ran
  rw [ran]
  simp only [accepted]

/-- Behind a valid header the connection continues with what follows the header. -/
theorem readProxyProtocolV1_ok {parseIP : Bytes → Option IP} {conn : TCPConn}
    {header rest : Bytes} {remoteAddr : TCPAddr} (valid : ValidHeader parseIP conn header remoteAddr)
    (arrives : conn.segments.content = header ++ rest) :
    ∃ proxied, readProxyProtocolV1 parseIP conn = .ok proxied ∧
      proxied.remoteAddr = remoteAddr ∧ proxied.wire.content = rest ∧ proxied.wire.Ready := by
  obtain ⟨⟨listener, origin⟩, ⟨body, rfl, absent⟩, localAddr, accepted⟩ := valid
  obtain ⟨wire, ran, left, ready⟩ :=
    readProxyProtocolV1_accepts listener origin absent accepted arrives
  exact ⟨_, ran, rfl, left, ready⟩

end TrojanGo.Tunnel
