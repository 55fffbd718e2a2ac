import Mathlib.Order.Monotone.Basic
import TrojanGo.Tunnel.Connections
import TrojanGo.Tunnel.Encodings

/-!
# The SOCKS and HTTP inbound servers
-/
namespace TrojanGo.Inbound

open Lib Tunnel Parser List

/-! ### Datagrams -/

/-- What becomes of a datagram. -/
inductive Outcome where
  | panic
  | dropped
  | delivered (address : Address) (payload : Bytes)

def maxPacketSize : Nat := 1024 * 8

variable (parseIP : Bytes → Option IP)

/-- A datagram is read into a buffer, where the address begins with the fourth byte. Whether a
payload is taken depends on the caller. -/
def process (takes : Bytes → Bool) (datagram : Bytes) : Outcome :=
  let buf := datagram.take maxPacketSize
  -- the slice from the fourth byte to the last one read
  if buf.length < 3 then .panic
  else
    match (Address.readFrom parseIP).parse (buf.drop 3) with
    | (.error .panic, _) => .panic
    | (.error _, _) => .dropped
    | (.ok (_, address), rest) =>
      if takes rest then .delivered address (rest.take maxPacketSize) else .dropped

/-- `ReadWithMetadata` of the forward proxy. All callers have a buffer of `maxPacketSize`, and an
empty payload is reported as the end of the datagram. -/
def readWithMetadata : Bytes → Outcome :=
  process parseIP fun rest => rest ≠ []

section Datagrams

variable {parseIP : Bytes → Option IP} {takes : Bytes → Bool} {datagram l rest : Bytes} {a : Address}

/-- A written address is read back, whatever follows. -/
theorem parse_writeTo (fits : a.Fits) (calm : ¬ AnnouncesLong (a.writeTo ++ rest)) :
    (Address.readFrom parseIP).parse (a.writeTo ++ rest) =
      (.ok (a.writeTo.length, a.received parseIP), rest) := by
  refine parse_yields (yields_address Read.list_lawful fits fun domain => ?_) rest
  by_contra long
  exact calm (writeTo_announces domain (by omega) (fits.2.1 domain) rest)

/-- The bytes begin with an address as the writer writes it. -/
def StartsAddress (bytes : Bytes) : Prop := ∃ a : Address, a.Fits ∧ a.writeTo <+: bytes

/-- No address can be read from the bytes, and the attempt is no panic. -/
def NoAddress (bytes : Bytes) : Prop := ¬ AnnouncesLong bytes ∧ ¬ StartsAddress bytes

theorem StartsAddress.parse (starts : StartsAddress l) (calm : ¬ AnnouncesLong l) :
    ∃ n a rest, (Address.readFrom parseIP).parse l = (.ok (n, a), rest) := by
  obtain ⟨sent, fits, rest, rfl⟩ := starts
  exact ⟨_, _, _, parse_writeTo fits calm⟩

theorem StartsAddress.take {n : Nat} (starts : StartsAddress l) (long : 259 ≤ n) :
    StartsAddress (l.take n) := by
  obtain ⟨sent, fits, start⟩ := starts
  exact ⟨sent, fits, prefix_take_iff.mpr ⟨start, (Address.writeTo_length fits).trans long⟩⟩

end Datagrams

structure Request where
  method : Bytes
  host : Bytes

/-- What the HTTP server takes from the standard library. -/
structure Net where
  ips : IPText
  splitHostPort : Bytes → Option (Bytes × Bytes)
  parseInt : Bytes → Option Int
  toUpper : Bytes → Bytes
  /-- the request with these lines -/
  parse : List Bytes → Option Request
  /-- the free space in the buffer of the reader, after it has read so much -/
  room : Bytes → Nat
  positive : ∀ got, 0 < room got

/-- The lines up to the first blank one, and what follows them. -/
def splitHeader : (line : Bytes) → Bytes → Option (List Bytes × Bytes)
  | _, [] => none
  | line, b :: bytes =>
    if b = newline then
      if line = [] ∨ line = ascii "\r" then some ([], bytes)
      else (splitHeader [] bytes).map fun header => (line :: header.1, header.2)
    else splitHeader (line ++ [b]) bytes

/-- `http.ReadRequest` with its buffered reader, which reads on until it has the whole header. -/
def readHeader (net : Net) : (fuel : Nat) → Segments UInt8 → (got : Bytes) →
    Option ((List Bytes × Bytes) × Segments UInt8)
  | 0, _, _ => none
  | fuel + 1, conn, got =>
    match splitHeader [] got with
    | some header => some (header, conn)
    | none =>
      match conn.read (net.room got) with
      | ((_, some _), _) => none
      | ((bytes, none), conn) => readHeader net fuel conn (got ++ bytes)

inductive AddrError where
  | panic
  | invalid

/-- A port that is no number is a panic. -/
def newAddressFromAddr (net : Net) (addr : Bytes) : Except AddrError Address :=
  match net.splitHostPort addr with
  | none => .error .invalid
  | some (host, portStr) =>
    match net.parseInt portStr with
    | none => .error .panic
    | some port => .ok (newAddressFromHostPort net.ips host port)

inductive Served where
  | panic
  | refused
  | other (request : Request)
  /-- the connection is handed over; what the reader has read beyond the header is dropped -/
  | connect (address : Address) (ahead : Bytes) (conn : Segments UInt8)

/-- What `acceptLoop` does with a connection. -/
def serve (net : Net) (responds : Bool) (conn : Segments UInt8) : Served :=
  match readHeader net (conn.content.length + 1) conn [] with
  | none => .refused
  | some ((lines, ahead), conn) =>
    match net.parse lines with
    | none => .refused
    | some request =>
      if net.toUpper request.method = ascii "CONNECT" then
        match newAddressFromAddr net request.host with
        | .error .panic => .panic
        | .error .invalid => .refused
        | .ok address => if responds then .connect address ahead conn else .refused
      else .other request

section Connect

variable {net : Net} {line bytes later got head rest : Bytes} {lines : List Bytes}

/-- Nothing that comes later changes a header. -/
theorem splitHeader_append (found : splitHeader line bytes = some (lines, rest)) :
    splitHeader line (bytes ++ later) = some (lines, rest ++ later) := by
  fun_induction splitHeader line bytes generalizing lines rest with
  | case1 => cases found
  | case2 line bytes blank =>
    cases found
    simp [splitHeader, blank]
  | case3 line bytes shown ih =>
    obtain ⟨header, here, same⟩ := Option.map_eq_some_iff.mp found
    cases same
    simp [splitHeader, shown, ih here]
  | case4 line b bytes other ih => simpa [splitHeader, other] using ih found

/-- Where the piece ends that has the byte with this index. -/
def pieceEnd : List Bytes → Nat → Nat
  | [], _ => 0
  | piece :: pieces, i =>
    if i < piece.length then piece.length else piece.length + pieceEnd pieces (i - piece.length)

/-- How many bytes the buffered reader has after so many reads. A read ends with the piece in which
it begins, or before that if the buffer has no more room. -/
def Net.reads (net : Net) (pieces : List Bytes) : Nat → Nat
  | 0 => 0
  | n + 1 =>
    let i := net.reads pieces n
    min (i + net.room (pieces.flatten.take i)) (pieceEnd pieces i)

theorem pieceEnd_le (pieces : List Bytes) (i : Nat) :
    pieceEnd pieces i ≤ pieces.flatten.length := by
  induction pieces generalizing i with
  | nil => simp [pieceEnd]
  | cons piece pieces ih => grind [pieceEnd]

theorem le_pieceEnd {pieces : List Bytes} {i : Nat} (inside : i ≤ pieces.flatten.length) :
    i ≤ pieceEnd pieces i := by
  induction pieces generalizing i with
  | nil => simpa [pieceEnd] using inside
  | cons piece pieces ih => grind [pieceEnd]

theorem reads_mono (net : Net) (pieces : List Bytes) : Monotone (net.reads pieces) := by
  refine monotone_nat_of_le_succ fun n => ?_
  have inside : net.reads pieces n ≤ pieces.flatten.length := by
    cases n with
    | zero => simp [Net.reads]
    | succ n => exact (Nat.min_le_right _ _).trans (pieceEnd_le pieces _)
  exact Nat.le_min.mpr ⟨Nat.le_add_right _ _, le_pieceEnd inside⟩

/-- What is left after a read has its pieces end where they ended before. -/
theorem read_pieceEnd {conn : Segments UInt8} {n : Nat} (room : 0 < n) (more : conn.content ≠ []) :
    ∃ bytes conn', conn.read n = ((bytes, none), conn') ∧ conn.content = bytes ++ conn'.content ∧
      0 < bytes.length ∧ bytes.length = min n (pieceEnd conn.pieces 0) ∧
      ∀ i, pieceEnd conn.pieces (bytes.length + i) = bytes.length + pieceEnd conn'.pieces i := by
  obtain ⟨_ | ⟨piece, pieces⟩, filled⟩ := conn
  · exact absurd rfl more
  have positive : 0 < piece.length := length_pos_of_ne_nil fun empty => filled (by simp [empty])
  by_cases rest : piece.drop n = []
  · have short : piece.length ≤ n := by simpa using rest
    refine ⟨piece, ⟨pieces, by grind⟩, by simp [Segments.read, rest], by simp [Segments.content], ?_⟩
    grind [pieceEnd]
  · have long : n < piece.length := by simpa using rest
    refine ⟨piece.take n, ⟨piece.drop n :: pieces, by grind⟩, by simp [Segments.read, rest],
      by simp [Segments.content, ← append_assoc], ?_⟩
    grind [pieceEnd]

/-- The reader stops at the first read that has the whole header. -/
theorem readHeader_ok {fuel n : Nat} {conn : Segments UInt8} {pieces : List Bytes}
    (header : splitHeader [] head = some (lines, [])) (arrives : pieces.flatten = head ++ rest)
    (whole : got ++ conn.content = head ++ rest) (fueled : conn.content.length < fuel)
    (reached : net.reads pieces n = got.length)
    (ends : ∀ i, pieceEnd pieces (got.length + i) = got.length + pieceEnd conn.pieces i)
    (before : ∀ m < n, net.reads pieces m < head.length) :
    ∃ ahead conn', readHeader net fuel conn got = some ((lines, ahead), conn') ∧
      ahead ++ conn'.content = rest ∧ (ahead = [] ↔ ∃ m, net.reads pieces m = head.length) := by
  induction fuel generalizing conn got n with
  | zero => omega
  | succ fuel ih =>
    rw [readHeader]
    cases found : splitHeader [] got with
    | some here =>
      have all : splitHeader [] (got ++ conn.content) = some (lines, rest) := by
        rw [whole]
        exact splitHeader_append header
      rw [splitHeader_append found] at all
      cases all
      refine ⟨here.2, conn, rfl, rfl, ?_⟩
      have lengths := congrArg length whole
      simp only [length_append] at lengths
      constructor
      · intro nothing
        rw [nothing, length_nil] at lengths
        exact ⟨n, by omega⟩
      · rintro ⟨m, ended⟩
        have late : n ≤ m := by
          by_contra early
          exact (before m (by omega)).ne ended
        have later := reads_mono net pieces late
        exact eq_nil_of_length_eq_zero (by omega)
    | none =>
      have short : got.length < head.length := by
        by_contra long
        obtain ⟨more, rfl⟩ : head <+: got :=
          prefix_of_prefix_length_le ⟨rest, rfl⟩ ⟨conn.content, whole⟩ (by omega)
        rw [splitHeader_append header] at found
        cases found
      have more : conn.content ≠ [] := by
        intro nothing
        have lengths := congrArg length whole
        simp only [nothing, length_append, length_nil] at lengths
        omega
      obtain ⟨bytes, conn', ran, split, filled, size, ends'⟩ :=
        read_pieceEnd (net.positive got) more
      have here : pieceEnd pieces got.length = got.length + pieceEnd conn.pieces 0 := ends 0
      rw [split, ← append_assoc] at whole
      rw [split, length_append] at fueled
      simp only [ran]
      refine @ih (got ++ bytes) (n + 1) conn' whole (by omega) ?_ ?_ ?_
      · have taken : pieces.flatten.take got.length = got := by simp [arrives, ← whole]
        simp only [Net.reads, reached, taken, length_append, size]
        omega
      · intro i
        rw [length_append, Nat.add_assoc, ends, ends', Nat.add_assoc]
      · grind

end Connect

/-- The connection of a CONNECT request delivers all that follows the header exactly if a read of
the buffered reader ends with the header. -/
theorem connect_delivers_iff (net : Net) (conn : Segments UInt8) {head rest : Bytes}
    {lines : List Bytes} {request : Request} {address : Address}
    (header : splitHeader [] head = some (lines, [])) (parsed : net.parse lines = some request)
    (method : net.toUpper request.method = ascii "CONNECT")
    (host : newAddressFromAddr net request.host = .ok address)
    (arrives : conn.content = head ++ rest) :
    ∃ ahead conn', serve net true conn = .connect address ahead conn' ∧
      ahead ++ conn'.content = rest ∧
      (conn'.content = rest ↔ ∃ n, net.reads conn.pieces n = head.length) := by
  have start : net.reads conn.pieces 0 = ([] : Bytes).length := rfl
  obtain ⟨ahead, conn', ran, left, ends⟩ := readHeader_ok header arrives arrives
    (Nat.lt_succ_self _) start (by simp) (by simp)
  refine ⟨ahead, conn', by simp [serve, ran, parsed, method, host], left, ?_⟩
  rw [← ends, ← left]
  exact self_eq_append_left

namespace Sample

/-- Every request is one for port 443 of a host. -/
def net : Net where
  ips := Tunnel.Sample.ips
  splitHostPort host := some (host, [])
  parseInt _ := some 443
  toUpper := id
  parse _ := some ⟨ascii "CONNECT", ascii "host"⟩
  room got := 4096 - got.length % 4096
  positive got := by omega

def header : Bytes := ascii "CONNECT host:443 HTTP/1.1\r\n\r\n"

end Sample

theorem separate_payload_delivered :
    ∃ ahead conn', serve Sample.net true ⟨[Sample.header, [1]], by decide⟩ =
        .connect (newAddressFromHostPort Sample.net.ips (ascii "host") 443) ahead conn' ∧
      ahead ++ conn'.content = [1] ∧
      (conn'.content = [1] ↔ ∃ n, Sample.net.reads [Sample.header, [1]] n = Sample.header.length) :=
  connect_delivers_iff Sample.net _ (show splitHeader [] Sample.header = _ from rfl) rfl rfl rfl rfl

/-- A payload in the segment of the request is lost. -/
theorem payload_with_request_lost :
    ∃ address ahead conn', serve Sample.net true ⟨[Sample.header ++ [1], [2]], by decide⟩ =
      .connect address ahead conn' ∧ conn'.content = [2] :=
  ⟨_, _, _, rfl, rfl⟩

/-! ### The SOCKS handshake -/

/-- The version and the methods of the client. A read into a buffer of one byte is a full read,
and so is `io.CopyN`. -/
def greeting : Parser UInt8 Bool := do
  match ← full 1 with
  | .error _ => return false
  | .ok version =>
    if version = [5] then
      match ← full 1 with
      | .error _ => return false
      | .ok nmethods =>
        match ← full (nmethods.headD 0).toNat with
        | .error _ => return false
        | .ok _ => return true
    else return false

/-- The command and the address of the client, and the bytes that are left. -/
abbrev Shaken := Except AddrError (UInt8 × Address × Bytes)

/-- The address follows the command, which was read into a zeroed buffer. -/
def readAddress (parseIP : Bytes → Option IP) (buf : Bytes) (conn : Segments UInt8) : Shaken :=
  match (Address.readFrom parseIP).eval (ReadOp.step Segments.read) conn with
  | (.error .panic, _) => .error .panic
  | (.error _, _) => .error .invalid
  | (.ok (_, address), conn) => .ok (buf.getD 1 0, address, conn.content)

def handshake (parseIP : Bytes → Option IP) (responds : Bool) (conn : Segments UInt8) : Shaken :=
  match greeting.eval (ReadOp.step Segments.read) conn with
  | (false, _) => .error .invalid
  | (true, conn) =>
    if responds then
      -- a single read, which may return less than three bytes
      match conn.read 3 with
      | ((_, some _), _) => .error .invalid
      | ((buf, none), conn) => readAddress parseIP buf conn
    else .error .invalid

/-- The handshake if the read of the command returns `k` bytes, or all that are left. -/
def handshakeAfter (parseIP : Bytes → Option IP) (responds : Bool) (content : Bytes) (k : Nat) :
    Shaken :=
  match greeting.parse content with
  | (false, _) => .error .invalid
  | (true, request) =>
    if responds then readAddress parseIP (request.take k) (.whole (request.drop k))
    else .error .invalid

section Handshake

variable {parseIP : Bytes → Option IP} {responds : Bool} {content request : Bytes} {k : Nat}

theorem greeting_only : greeting.Only ReadOp.IsFull := by
  refine .step trivial fun version => ?_
  cases version with
  | error reason => trivial
  | ok version => grind [ReadOp.IsFull]

theorem readAddress_whole (buf : Bytes) (conn : Segments UInt8) :
    readAddress parseIP buf conn = readAddress parseIP buf (.whole conn.content) := by
  obtain ⟨conn₁, ran₁, left₁, -⟩ := eval_parse Segments.lawful (@readFrom_only parseIP)
    (r := conn) fun _ => trivial
  obtain ⟨conn₂, ran₂, left₂, -⟩ := eval_parse Segments.lawful (@readFrom_only parseIP)
    (r := .whole conn.content) fun _ => trivial
  rw [Segments.content_whole] at ran₂ left₂
  unfold readAddress
  rw [ran₁, ran₂]
  grind

theorem handshake_after (parseIP : Bytes → Option IP) (responds : Bool) (conn : Segments UInt8) :
    ∃ k, 0 < k ∧ k ≤ 3 ∧
      handshake parseIP responds conn = handshakeAfter parseIP responds conn.content k := by
  obtain ⟨conn₁, ran, left, -⟩ := eval_parse Segments.lawful greeting_only (r := conn)
    fun _ => trivial
  unfold handshake handshakeAfter
  rw [ran]
  rcases parsed : greeting.parse conn.content with ⟨_ | _, request⟩
  · exact ⟨1, by simp⟩
  rw [parsed] at left
  obtain rfl : conn₁.content = request := left
  cases responds
  · exact ⟨1, by simp⟩
  by_cases ended : conn₁.content = []
  · have got := (Segments.lawful.ends 0 conn₁ 3 trivial (by omega) ended).1
    refine ⟨1, by omega, by omega, ?_⟩
    rcases step : conn₁.read 3 with ⟨_, conn₂⟩
    simp only [step] at got
    subst got
    simp only [step, ended]
    rfl
  · obtain ⟨buf, got, filled, short, split, -⟩ := Segments.lawful.step 3 conn₁ 3 trivial
      (by omega) (by omega) ended
    refine ⟨buf.length, length_pos_of_ne_nil filled, short, ?_⟩
    rcases step : conn₁.read 3 with ⟨_, conn₂⟩
    simp only [step] at got split
    subst got
    simp [step, split, readAddress_whole buf conn₂]

/-- Pieces, without the empty ones. -/
def segments (pieces : List Bytes) : Segments UInt8 := ⟨pieces.filter (· ≠ []), by simp⟩

variable {piece : Bytes} {pieces : List Bytes}

theorem content_segments : (segments pieces).content = pieces.flatten := flatten_filter_ne_nil

theorem read_segments {n : Nat} (filled : piece ≠ []) :
    (segments (piece :: pieces)).read n =
      ((piece.take n, none), segments (piece.drop n :: pieces)) := by
  by_cases rest : piece.drop n = []
  · have short : piece.length ≤ n := by simpa using rest
    simp [segments, Segments.read, filled, rest, take_of_length_le short]
  · simp [segments, Segments.read, filled, rest]

theorem full_segments {β : Type} {n : Nat} {next : Except ReadError Bytes → Parser UInt8 β}
    (enough : n ≤ piece.length) :
    (full n >>= next).eval (ReadOp.step Segments.read) (segments (piece :: pieces)) =
      (next (.ok (piece.take n))).eval (ReadOp.step Segments.read)
        (segments (piece.drop n :: pieces)) := by
  show Prog.eval _ (next (Read.full _ _ _ _).1) (Read.full _ _ _ _).2 = _
  cases n with
  | zero => rfl
  | succ n =>
    have filled : piece ≠ [] := ne_nil_of_length_pos (by omega)
    have all : (piece.take (n + 1)).length = n + 1 := length_take_of_le enough
    simp [Read.full, read_segments filled, all]

theorem greeting_iff : greeting.parse content = (true, request) ↔
    ∃ nmethods methods, content = 5 :: nmethods :: (methods ++ request) ∧
      methods.length = nmethods.toNat := by
  constructor
  · intro greeted
    obtain ⟨nmethods, rest, rfl, enough, rfl⟩ : ∃ nmethods rest, content = 5 :: nmethods :: rest ∧
        nmethods.toNat ≤ rest.length ∧ rest.drop nmethods.toNat = request := by
      rcases content with _ | ⟨version, _ | ⟨nmethods, rest⟩⟩ <;>
        grind [greeting, parse_one_nil, parse_one_cons, parse_full_bind, parse_pure]
    exact ⟨nmethods, rest.take nmethods.toNat, by simp, length_take_of_le enough⟩
  · rintro ⟨nmethods, methods, rfl, all⟩
    simp [greeting, parse_full_bind, ← all]

theorem greeting_segments {nmethods : UInt8} {methods : Bytes}
    (all : methods.length = nmethods.toNat) :
    greeting.eval (ReadOp.step Segments.read) (segments ((5 :: nmethods :: methods) :: pieces)) =
      (true, segments pieces) := by
  rw [greeting, full_segments (by simp)]
  simp only [take_succ_cons, take_zero, if_pos]
  rw [full_segments (by simp)]
  simp only [take_succ_cons, take_zero, drop_succ_cons, drop_zero, headD_cons]
  rw [full_segments all.ge]
  simp [segments, ← all]

theorem handshake_reaches (parseIP : Bytes → Option IP) (responds : Bool) (content : Bytes)
    (positive : 0 < k) (short : k ≤ 3) :
    ∃ conn : Segments UInt8, conn.content = content ∧
      handshake parseIP responds conn = handshakeAfter parseIP responds content k := by
  -- if the command is not read, one piece is as good as any pieces
  by_cases read : ∃ request, greeting.parse content = (true, request) ∧ request ≠ [] ∧ responds
  · obtain ⟨request, greeted, filled, rfl⟩ := read
    obtain ⟨nmethods, methods, rfl, count⟩ := greeting_iff.mp greeted
    refine ⟨segments [5 :: nmethods :: methods, request.take k, request.drop k], ?_, ?_⟩
    · simp [content_segments]
    · have some : request.take k ≠ [] := by simpa using ⟨positive.ne', filled⟩
      have all : (request.take k).take 3 = request.take k := by simp [take_take, short]
      have none : (request.take k).drop 3 = [] := by simp; omega
      simp only [handshake, handshakeAfter, greeted, greeting_segments count, read_segments some,
        all, none, if_pos]
      rw [readAddress_whole, content_segments]
      simp
  · refine ⟨.whole content, Segments.content_whole content, ?_⟩
    obtain ⟨k', -, -, ran⟩ := handshake_after parseIP responds (.whole content)
    rw [ran, Segments.content_whole]
    unfold handshakeAfter
    rcases greeted : greeting.parse content with ⟨_ | _, request⟩ <;> grind

/-- It is enough to look at the reads of the command that return one, two or three bytes. -/
theorem splits_agree_iff :
    (∀ conn conn' : Segments UInt8, conn.content = content → conn'.content = content →
        handshake parseIP responds conn = handshake parseIP responds conn') ↔
      ∀ k, 0 < k → k ≤ 3 → handshakeAfter parseIP responds content k =
        handshakeAfter parseIP responds content 3 := by
  constructor
  · intro same k positive short
    obtain ⟨conn, here, ran⟩ := handshake_reaches parseIP responds content positive short
    obtain ⟨conn', here', ran'⟩ :=
      handshake_reaches (k := 3) parseIP responds content (by omega) (by omega)
    rw [← ran, ← ran']
    exact same _ _ here here'
  · rintro same conn conn' rfl here
    obtain ⟨k, positive, short, ran⟩ := handshake_after parseIP responds conn
    obtain ⟨k', positive', short', ran'⟩ := handshake_after parseIP responds conn'
    rw [ran, ran', here, same k positive short, same k' positive' short']

theorem StartsAddress.type {l : Bytes} (starts : StartsAddress l) : l.headD 0 ≠ 0 := by
  obtain ⟨a, -, rest, rfl⟩ := starts
  rw [Address.writeTo]
  cases a.addressType <;> simp [AddressType.code]

theorem announcesLong_tail {l : Bytes} (long : AnnouncesLong l) : ¬ AnnouncesLong l.tail := by
  rcases l with _ | ⟨code, _ | ⟨length, l⟩⟩ <;> simp [AnnouncesLong] at long ⊢
  grind

/-- What comes of the address behind a command. -/
theorem readAddress_cases (buf l : Bytes) :
    (readAddress parseIP buf (.whole l) = .error .panic ∧ AnnouncesLong l) ∨
    (readAddress parseIP buf (.whole l) = .error .invalid ∧ NoAddress l) ∨
    ∃ a rest, readAddress parseIP buf (.whole l) = .ok (buf.getD 1 0, a, rest) ∧
      ¬ AnnouncesLong l ∧ StartsAddress l := by
  obtain ⟨conn, ran, -, -⟩ := eval_parse Segments.lawful (@readFrom_only parseIP)
    (r := .whole l) fun _ => trivial
  rw [Segments.content_whole] at ran
  have panics := @readFrom_panic_iff parseIP l
  unfold readAddress
  rw [ran]
  rcases parsed : (Address.readFrom parseIP).parse l with ⟨reason | ⟨n, a⟩, rest⟩
  · rw [parsed] at panics
    by_cases panic : reason = .panic
    · left
      subst panic
      exact ⟨rfl, panics.mp rfl⟩
    · have calm : ¬ AnnouncesLong l := by simpa [← panics] using panic
      have none : ¬ StartsAddress l := by
        intro starts
        obtain ⟨n, a, rest, again⟩ := @StartsAddress.parse parseIP _ starts calm
        rw [parsed] at again
        cases again
      right; left
      exact ⟨by cases reason <;> simp_all, calm, none⟩
  · right; right
    obtain ⟨sent, fits, same, -, -⟩ := readFrom_ok parsed
    refine ⟨a, _, rfl, ?_, sent, fits, same ▸ prefix_append ..⟩
    simp [← panics, parsed]

end Handshake

/-- All ways in which the bytes of a client can be split have one outcome exactly if no address can
be read one, two or three bytes behind the greeting. Otherwise the reads of the command that return
so many bytes differ: in the outcome, or in the command. -/
theorem handshake_splits_agree_iff (parseIP : Bytes → Option IP) (responds : Bool)
    (content : Bytes) :
    (∀ conn conn' : Segments UInt8, conn.content = content → conn'.content = content →
        handshake parseIP responds conn = handshake parseIP responds conn') ↔
      ∀ nmethods methods request, content = 5 :: nmethods :: (methods ++ request) →
        methods.length = nmethods.toNat → responds = true →
        ∀ k ∈ [1, 2, 3], NoAddress (request.drop k) := by
  rw [splits_agree_iff]
  constructor
  · rintro same nmethods methods request rfl all rfl
    have after (k : Nat) : handshakeAfter parseIP true (5 :: nmethods :: (methods ++ request)) k =
        readAddress parseIP (request.take k) (.whole (request.drop k)) := by
      simp [handshakeAfter, greeting_iff.mpr ⟨nmethods, methods, rfl, all⟩]
    have first := same 1 (by omega) (by omega)
    have second := same 2 (by omega) (by omega)
    rw [after, after] at first second
    rcases @readAddress_cases parseIP (request.take 1) (request.drop 1) with
      ⟨one, panics₁⟩ | ⟨one, none₁⟩ | ⟨a₁, rest₁, one, -, starts⟩ <;>
    rcases @readAddress_cases parseIP (request.take 2) (request.drop 2) with
      ⟨two, panics₂⟩ | ⟨two, none₂⟩ | ⟨a₂, rest₂, two, -, -⟩ <;>
    rw [one] at first <;> rw [two, ← first] at second <;>
    simp only [eq_self, reduceCtorEq, Except.error.injEq, Except.ok.injEq, Prod.mk.injEq] at second
    -- the bytes that announce a name are not its length
    · exact absurd panics₂ (tail_drop (l := request) ▸ announcesLong_tail panics₁)
    · rcases @readAddress_cases parseIP (request.take 3) (request.drop 3) with
        ⟨three, -⟩ | ⟨-, none₃⟩ | ⟨_, _, three, -, -⟩
      · simp [three] at first
      · grind
      · simp [three] at first
    -- the command is zero if one byte was read, and otherwise the type of the first address
    · refine absurd ?_ starts.type
      rcases request with _ | ⟨version, _ | ⟨command, request⟩⟩ <;> simp_all
  · intro rejected k positive short
    unfold handshakeAfter
    rcases greeted : greeting.parse content with ⟨_ | _, request⟩
    · rfl
    obtain ⟨nmethods, methods, whole, all⟩ := greeting_iff.mp greeted
    cases responds with
    | false => rfl
    | true =>
      have invalid : ∀ k ∈ [1, 2, 3],
          readAddress parseIP (request.take k) (.whole (request.drop k)) = .error .invalid := by
        intro k mem
        have none := rejected nmethods methods request whole all rfl k mem
        rcases @readAddress_cases parseIP (request.take k) (request.drop k) with
          ⟨-, panics⟩ | ⟨same, -⟩ | ⟨_, _, -, -, starts⟩
        · exact absurd panics none.1
        · exact same
        · exact absurd starts none.2
      simp only [if_true]
      rw [invalid 3 (by simp), invalid k (by simp; omega)]

/-- A request whose command arrives in two segments is rejected. -/
theorem split_command_rejected :
    handshake (fun _ => none) true ⟨[[5, 1, 0], [5, 1, 0, 1, 1, 2, 3, 4, 1, 187]], by decide⟩ =
        .ok (1, { addressType := .ipv4, ip := [1, 2, 3, 4], port := 443 }, []) ∧
      handshake (fun _ => none) true ⟨[[5, 1, 0], [5, 1], [0, 1, 1, 2, 3, 4, 1, 187]], by decide⟩ =
        .error .invalid :=
  ⟨rfl, rfl⟩

end TrojanGo.Inbound
