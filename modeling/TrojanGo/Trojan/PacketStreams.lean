import TrojanGo.Trojan.Packets
import TrojanGo.Tunnel.Encodings

/-!
# Streams of datagrams

The reader stays synchronised if after every call it stands at the beginning of the next frame. The
length of a payload is written in two bytes, so one of 64 KiB or more leads the reader astray.
-/
namespace TrojanGo.Trojan

open Lib Tunnel Parser List

structure Packet where
  address : Address
  payload : Bytes

def Packet.wire (p : Packet) : Bytes := writeWithMetadata p.payload p.address

def wires (ps : List Packet) : Bytes := ps.flatMap Packet.wire

/-- One call of `ReadWithMetadata` after another. -/
def readPackets (parseIP : Bytes → Option IP) (size : Nat) :
    Nat → Parser UInt8 (List (Except PacketError (Bytes × Address)))
  | 0 => return []
  | n + 1 => do
    let result ← readWithMetadata parseIP size
    let more ← readPackets parseIP size n
    return result :: more

/-- The packet is returned as it was sent, or reported as an error if it is over the limit. -/
def Packet.Reported (p : Packet) (result : Except PacketError (Bytes × Address)) : Prop :=
  if p.payload.length ≤ maxPacketSize then
    ∃ a : Address, result = .ok (p.payload, a) ∧ a.Same p.address
  else ∃ reason, result = .error reason ∧ reason ≠ .address .panic

/-- However the packets arrive and whatever follows them, after each call the packets so far
have been reported and the next frame is at the front of the stream. -/
def Synchronised (parseIP : Bytes → Option IP) (size : Nat) (ps : List Packet) : Prop :=
  ∀ (rest : Bytes) (conn : Segments UInt8), conn.content = wires ps ++ rest →
    ∀ n ≤ ps.length, ∃ results conn',
      (readPackets parseIP size n).eval (ReadOp.step Segments.read) conn = (results, conn') ∧
      List.Forall₂ Packet.Reported (ps.take n) results ∧
      conn'.content = wires (ps.drop n) ++ rest

/-- The frame on its own: it is reported, and exactly the frame is consumed. -/
def ReadsBack (parseIP : Bytes → Option IP) (size : Nat) (p : Packet) : Prop :=
  ∀ rest, ∃ result, (readWithMetadata parseIP size).parse (p.wire ++ rest) = (result, rest) ∧
    p.Reported result

variable {parseIP : Bytes → Option IP} {size : Nat}

/-! ### From the frames to the stream -/

theorem readPayload_only : (readPayload size).Only ReadOp.IsFull := by
  refine .step trivial fun length => ?_
  cases length with
  | error reason => trivial
  | ok lengthBuf =>
    refine .step trivial fun crlf => ?_
    cases crlf with
    | error reason => trivial
    | ok crlf =>
      dsimp only
      split
      · exact .step trivial fun _ => trivial
      · exact .step trivial fun payload => by cases payload <;> trivial

theorem readWithMetadata_only : (readWithMetadata parseIP size).Only ReadOp.IsFull := by
  refine .bind readFrom_only fun address => ?_
  cases address with
  | error reason => trivial
  | ok address =>
    exact .bind readPayload_only fun payload => by cases payload <;> trivial

theorem readPackets_only (n : Nat) : (readPackets parseIP size n).Only ReadOp.IsFull := by
  induction n with
  | zero => trivial
  | succ n ih =>
    exact .bind readWithMetadata_only fun _ => .bind ih fun _ => trivial

/-- The same on the bytes themselves. -/
theorem synchronised_iff (ps : List Packet) :
    Synchronised parseIP size ps ↔ ∀ rest, ∀ n ≤ ps.length, ∃ results,
      (readPackets parseIP size n).parse (wires ps ++ rest) =
        (results, wires (ps.drop n) ++ rest) ∧
      List.Forall₂ Packet.Reported (ps.take n) results := by
  have same := fun (n : Nat) (conn : Segments UInt8) =>
    Parser.eval_parse Segments.lawful (@readPackets_only parseIP size n) (r := conn)
      fun _ => trivial
  constructor
  · intro sync rest n short
    -- a connection that holds all the bytes in one piece is one of those that `sync` speaks about
    obtain ⟨results, conn', ran, reported, left⟩ :=
      sync rest (.whole (wires ps ++ rest)) (by simp) n short
    obtain ⟨conn'', ran', left', -⟩ := same n (.whole (wires ps ++ rest))
    rw [ran, Prod.mk.injEq] at ran'
    rw [← ran'.2, left, Segments.content_whole] at left'
    rw [Segments.content_whole] at ran'
    exact ⟨results, Prod.ext ran'.1.symm left'.symm, reported⟩
  · intro parses rest conn arrives n short
    obtain ⟨results, parsed, reported⟩ := parses rest n short
    obtain ⟨conn', ran, left, -⟩ := same n conn
    rw [arrives, parsed] at ran left
    exact ⟨results, conn', ran, reported, left⟩

theorem parse_readPackets (n : Nat) (l : Bytes) :
    (readPackets parseIP size (n + 1)).parse l =
      let first := (readWithMetadata parseIP size).parse l
      let more := (readPackets parseIP size n).parse first.2
      (first.1 :: more.1, more.2) := by
  rw [readPackets, parse_bind, parse_bind]
  rfl

theorem wires_cons (p : Packet) (ps : List Packet) (rest : Bytes) :
    wires (p :: ps) ++ rest = p.wire ++ (wires ps ++ rest) := by
  simp [wires]

variable {p : Packet} {ps : List Packet}

/-- A packet that is read back does not disturb the packets behind it. -/
theorem Synchronised.cons (first : ReadsBack parseIP size p) (more : Synchronised parseIP size ps) :
    Synchronised parseIP size (p :: ps) := by
  rw [synchronised_iff] at more ⊢
  intro rest n short
  cases n with
  | zero => exact ⟨[], rfl, .nil⟩
  | succ n =>
    -- the first call takes the whole frame, so the others begin where the packets behind it do
    obtain ⟨result, parsed, reported⟩ := first (wires ps ++ rest)
    obtain ⟨results, parsed', reported'⟩ := more rest n (by simpa using short)
    refine ⟨result :: results, ?_, .cons reported reported'⟩
    rw [wires_cons, parse_readPackets, parsed]
    simp only [parsed', drop_succ_cons]

theorem Synchronised.head (sync : Synchronised parseIP size (p :: ps)) :
    ReadsBack parseIP size p := by
  rw [synchronised_iff] at sync
  -- with a byte behind the frames the first call cannot have stopped for want of bytes
  obtain ⟨results, parsed, reported⟩ := sync [0] 1 (by simp)
  rw [wires_cons, parse_readPackets] at parsed
  rcases outcome : (readWithMetadata parseIP size).parse (p.wire ++ (wires ps ++ [0]))
    with ⟨result, left⟩
  rw [outcome] at parsed
  cases parsed
  obtain ⟨taken, split, same⟩ := parse_local readWithMetadata_only outcome (by simp)
  obtain rfl := append_cancel_right split
  intro rest
  cases reported with
  | cons reported => exact ⟨result, same rest, reported⟩

theorem Synchronised.tail (sync : Synchronised parseIP size (p :: ps)) :
    Synchronised parseIP size ps := by
  have first := sync.head
  rw [synchronised_iff] at sync ⊢
  intro rest n short
  obtain ⟨result, parsed, -⟩ := first (wires ps ++ rest)
  obtain ⟨results, parsed', reported⟩ := sync rest (n + 1) (by simpa using short)
  rw [wires_cons, parse_readPackets, parsed] at parsed'
  simp only [drop_succ_cons] at parsed'
  rcases outcome : (readPackets parseIP size n).parse (wires ps ++ rest) with ⟨results', left⟩
  rw [outcome] at parsed'
  cases parsed'
  cases reported with
  | cons _ reported => exact ⟨results', rfl, reported⟩

theorem synchronised_iff_readsBack (ps : List Packet) :
    Synchronised parseIP size ps ↔ ∀ p ∈ ps, ReadsBack parseIP size p := by
  induction ps with
  | nil =>
    have empty : Synchronised parseIP size [] := by
      intro rest conn arrives n short
      obtain rfl : n = 0 := by simpa using short
      exact ⟨[], conn, rfl, .nil, arrives⟩
    simp [empty]
  | cons p ps ih =>
    rw [forall_mem_cons, ← ih]
    exact ⟨fun sync => ⟨sync.head, sync.tail⟩, fun both => .cons both.1 both.2⟩

/-! ### One frame -/

/-- Behind an address that can be read, the frame is decided by its payload. -/
theorem parse_frame (fits : p.address.Fits)
    (short : p.address.addressType = .domainName → p.address.domainName.length < 254) (rest : Bytes) :
    (readWithMetadata parseIP size).parse (p.wire ++ rest) =
      let behind := (readPayload size).parse
        (putUint16 p.payload.length ++ (crlf ++ p.payload) ++ rest)
      (behind.1.map fun payload => (payload, p.address.received parseIP), behind.2) := by
  have address := parse_yields
    (@yields_address _ _ _ _ parseIP Read.list_lawful p.address fits short)
    (putUint16 p.payload.length ++ (crlf ++ p.payload) ++ rest)
  rw [Packet.wire, writeWithMetadata, append_assoc, readWithMetadata, parse_bind,
    address]
  dsimp only
  rw [parse_bind]
  rcases (readPayload size).parse (putUint16 p.payload.length ++ (crlf ++ p.payload) ++ rest)
    with ⟨result, left⟩
  cases result <;> rfl

theorem uint16_put_mod (n : Nat) : uint16 (putUint16 n) = n % 65536 := by
  simp only [uint16, putUint16, getD_cons_zero, getD_cons_succ, UInt8.toNat_ofNat']
  omega

theorem parse_payload_cut {payload : Bytes} (long : 65536 ≤ payload.length) (rest : Bytes) :
    (∃ part left, (readPayload size).parse (putUint16 payload.length ++ (crlf ++ payload) ++ rest)
      = (.ok part, left)) ∨
    (∃ left, (readPayload size).parse (putUint16 payload.length ++ (crlf ++ payload) ++ rest)
      = (.error .tooLarge, left) ∧ rest.length < left.length) := by
  have cut : payload.length % 65536 < payload.length := by omega
  rw [readPayload, append_assoc, parse_full_append (putUint16_length _)]
  dsimp only
  rw [uint16_put_mod, append_assoc, parse_full_append (show crlf.length = 2 from rfl)]
  dsimp only
  have enough : payload.length % 65536 ≤ (payload ++ rest).length := by
    rw [length_append]
    omega
  -- what is announced is within the limit of the reader or not; all of it is there in both cases
  split
  · right
    rw [parse_full_bind, if_pos enough]
    refine ⟨_, rfl, ?_⟩
    rw [length_drop, length_append]
    omega
  · left
    rw [parse_full_bind, if_pos enough]
    exact ⟨_, _, rfl⟩

theorem readsBack_iff (large : maxPacketSize ≤ size) (fits : p.address.Fits) :
    ReadsBack parseIP size p ↔
      p.payload.length < 65536 ∧
      (p.address.addressType = .domainName → p.address.domainName.length < 254) ∧
      (p.payload.length ≤ maxPacketSize → p.address.addressType = .domainName →
        parseIP p.address.domainName = none) := by
  constructor
  · intro reads
    have short : p.address.addressType = .domainName → p.address.domainName.length < 254 := by
      -- the reader of addresses panics on a longer name, and a panic is no report
      intro domain
      by_contra long
      obtain ⟨taken, rest, written, yields⟩ := @yields_packet_long _ _ _ _ parseIP size
        Read.list_lawful p.address domain (by omega) fits
      obtain ⟨result, parsed, reported⟩ := reads []
      rw [Packet.wire, writeWithMetadata, written, append_assoc, append_assoc,
        parse_yields yields, Prod.mk.injEq] at parsed
      obtain ⟨rfl, -⟩ := parsed
      unfold Packet.Reported at reported
      split at reported
      · obtain ⟨a, never, -⟩ := reported
        cases never
      · obtain ⟨reason, same, other⟩ := reported
        cases same
        exact other rfl
    obtain ⟨result, parsed, reported⟩ := reads []
    rw [parse_frame fits short] at parsed
    refine ⟨?_, short, ?_⟩
    · by_contra long
      -- such a payload has to be reported as an error behind which nothing of the frame is left
      have beyond : ¬ p.payload.length ≤ maxPacketSize := by
        unfold maxPacketSize
        omega
      rw [Packet.Reported, if_neg beyond] at reported
      obtain ⟨reason, rfl, -⟩ := reported
      rcases @parse_payload_cut size p.payload (by omega) [] with
        ⟨part, left, cut⟩ | ⟨left, cut, missing⟩
      · rw [cut] at parsed
        cases parsed
      · rw [cut] at parsed
        cases parsed
        exact absurd missing (by simp)
    · intro small domain
      -- the address is returned as the reader understands it, with a name that is an IP address
      have behind := parse_yields
        (yields_payload Read.list_lawful (small.trans large) small) []
      rw [behind] at parsed
      cases parsed
      rw [Packet.Reported, if_pos small] at reported
      obtain ⟨a, same, target⟩ := reported
      cases same
      exact (received_same_iff fits).mp target domain
  · rintro ⟨width, short, plain⟩ rest
    rw [parse_frame fits short]
    by_cases small : p.payload.length ≤ maxPacketSize
    · rw [parse_yields (yields_payload Read.list_lawful (small.trans large) small)]
      refine ⟨_, rfl, ?_⟩
      rw [Packet.Reported, if_pos small]
      exact ⟨_, rfl, (received_same_iff fits).mpr (plain small)⟩
    · have beyond : size < p.payload.length ∨ maxPacketSize < p.payload.length := by omega
      -- the payload is drained before the error is returned, so the next frame is found
      rw [parse_yields (yields_payload_large Read.list_lawful beyond width)]
      refine ⟨_, rfl, ?_⟩
      rw [Packet.Reported, if_neg small]
      exact ⟨_, rfl, by simp⟩

/-- The reader stays synchronised exactly when each frame alone is read back. For an address that
can be written down this says: the payload has fewer than 65536 bytes, a name has fewer than 254,
and a packet that is returned is not addressed to an IP address written as a name. -/
theorem synchronised_iff_frames (parseIP : Bytes → Option IP) (size : Nat)
    (large : maxPacketSize ≤ size) (ps : List Packet) :
    (Synchronised parseIP size ps ↔ ∀ p ∈ ps, ReadsBack parseIP size p) ∧
    ∀ p : Packet, p.address.Fits → (ReadsBack parseIP size p ↔
      p.payload.length < 65536 ∧
      (p.address.addressType = .domainName → p.address.domainName.length < 254) ∧
      (p.payload.length ≤ maxPacketSize → p.address.addressType = .domainName →
        parseIP p.address.domainName = none)) :=
  ⟨synchronised_iff_readsBack ps, fun _ fits => readsBack_iff large fits⟩

namespace Sample

def packet (length : Nat) : Packet :=
  { address := { addressType := .domainName, domainName := [97], port := 53 }
    payload := List.replicate length 0 }

theorem packet_fits (length : Nat) : (packet length).address.Fits := by
  simp [packet, Address.Fits]

end Sample

/-- A packet over the limit between two packets within it. -/
theorem large_packet_skipped :
    maxPacketSize ≤ 8192 ∧
      Synchronised (fun _ => none) 8192 [Sample.packet 3, Sample.packet 9000, Sample.packet 4] := by
  have large : maxPacketSize ≤ 8192 := by decide
  refine ⟨large, ?_⟩
  obtain ⟨stream, frame⟩ := synchronised_iff_frames (fun _ => none) 8192 large
    [Sample.packet 3, Sample.packet 9000, Sample.packet 4]
  rw [stream]
  have reads : ∀ length < 65536, ReadsBack (fun _ => none) 8192 (Sample.packet length) := by
    intro length width
    rw [frame _ (Sample.packet_fits length)]
    simp only [Sample.packet, length_replicate]
    exact ⟨width, by decide, by simp⟩
  intro p inside
  simp only [mem_cons, not_mem_nil, or_false] at inside
  rcases inside with rfl | rfl | rfl
  · exact reads 3 (by decide)
  · exact reads 9000 (by decide)
  · exact reads 4 (by decide)

/-- A payload of 65536 bytes is announced as one of none. -/
theorem huge_packet_desynchronises :
    ¬ Synchronised (fun _ => none) 8192 [Sample.packet 65536] := by
  intro sync
  have reads := (readsBack_iff (by decide) (Sample.packet_fits 65536)).mp sync.head
  simp only [Sample.packet, length_replicate] at reads
  exact absurd reads.1 (by decide)

end TrojanGo.Trojan
