import Mathlib.Algebra.Order.Ring.Nat
import Mathlib.Data.List.Perm.Basic
import TrojanGo.Tunnel.Address

/-!
# The connection below a multiplexed session

The connection holds back the frames that open or close a stream, in two bounded channels, and
sends them around the next other frame. Nothing but `Write` and `Close` receives from the
channels, so a goroutine that sends to a full channel waits for itself.
-/
namespace TrojanGo.Mux

open List

/-! ### The connection -/

/-- The two channels. -/
inductive Queue where
  | syn
  | fin
  deriving DecidableEq

structure StickyConn where
  synQueue : List Bytes := []
  finQueue : List Bytes := []
  /-- what the connection below has taken -/
  wire : Bytes := []
  closed : Bool := false
  deriving DecidableEq

/-- How the connection below fares with a write: how many bytes it takes, and its error. -/
abbrev Under := Bytes → Nat × Option String

/-- It always accepts data. -/
def accepting : Under := fun bytes => (bytes.length, none)

/-- The capacity of the channels. -/
def queueSize : Nat := 128

def maxPaddingLength : Nat := 512

/-- Six letters for debugging, and zeros up to the size of the array. -/
def padding : Bytes :=
  [65, 66, 67, 68, 69, 70] ++ List.replicate (maxPaddingLength + 8 - 6) 0

/-- The channel that a written header goes to: eight bytes that begin with a version of the
protocol and the command of opening or closing. -/
def queueOf : Bytes → Option Queue
  | version :: cmd :: rest =>
    if rest.length = 6 ∧ (version = 1 ∨ version = 2) then
      if cmd = 0 then some .syn else if cmd = 1 then some .fin else none
    else none
  | _ => none

namespace StickyConn

def queue (c : StickyConn) : Queue → List Bytes
  | .syn => c.synQueue
  | .fin => c.finQueue

def push (c : StickyConn) (header : Bytes) : Queue → StickyConn
  | .syn => { c with synQueue := c.synQueue ++ [header] }
  | .fin => { c with finQueue := c.finQueue ++ [header] }

/-- Both loops receive until their channel is empty. -/
def stickToPayload (c : StickyConn) (p : Bytes) : Bytes × StickyConn :=
  (c.synQueue.flatten ++ p ++ c.finQueue.flatten, { c with synQueue := [], finQueue := [] })

/-- `Write`. There is no result when the channel is full: the send waits. -/
def write (under : Under) (p : Bytes) (c : StickyConn) :
    Option ((Nat × Option String) × StickyConn) :=
  match queueOf p with
  | some q => if (c.queue q).length < queueSize then some ((8, none), c.push p q) else none
  | none =>
    let (bytes, c) := c.stickToPayload p
    let (taken, err) := under bytes
    some ((p.length, err), { c with wire := c.wire ++ bytes.take taken })

/-- `Close`, with the length that was drawn for the padding. -/
def close (under : Under) (draw : Fin maxPaddingLength) (c : StickyConn) : Option StickyConn :=
  let (buf, c) := c.stickToPayload []
  (c.write under (buf ++ padding.take draw)).map fun (_, c) => { c with closed := true }

/-- One write after another. -/
def writes (under : Under) : List Bytes → StickyConn → Option StickyConn
  | [], c => some c
  | p :: rest, c => (c.write under p).bind fun (_, c) => c.writes under rest

end StickyConn

/-! ### Frames -/

inductive Cmd where
  | syn
  | fin
  | psh
  | nop
  | upd
  deriving DecidableEq

def Cmd.code : Cmd → UInt8
  | .syn => 0
  | .fin => 1
  | .psh => 2
  | .nop => 3
  | .upd => 4

theorem Cmd.code_injective : Function.Injective Cmd.code := by
  intro a b same
  revert same
  cases a <;> cases b <;> decide

structure Frame where
  version : UInt8
  cmd : Cmd
  streamID : UInt32
  data : Bytes
  known : version = 1 ∨ version = 2
  short : data.length < 2 ^ 16
  deriving DecidableEq

def le16 (n : Nat) : Bytes := [UInt8.ofNat n, UInt8.ofNat (n / 256)]

def le32 (n : Nat) : Bytes := le16 n ++ le16 (n / 2 ^ 16)

theorem le16_inj {m n : Nat} (same : le16 m = le16 n) : m % 2 ^ 16 = n % 2 ^ 16 := by
  simp only [le16, cons.injEq, and_true] at same
  have low := congrArg UInt8.toNat same.1
  have high := congrArg UInt8.toNat same.2
  simp only [UInt8.toNat_ofNat'] at low high
  omega

theorem le32_inj {m n : Nat} (same : le32 m = le32 n) (hm : m < 2 ^ 32) (hn : n < 2 ^ 32) :
    m = n := by
  obtain ⟨low, high⟩ := append_inj same rfl
  have low := le16_inj low
  have high := le16_inj high
  omega

namespace Frame

/-- Version, command, length and stream, eight bytes. -/
def header (f : Frame) : Bytes :=
  f.version :: f.cmd.code :: (le16 f.data.length ++ le32 f.streamID.toNat)

/-- A frame on the wire. -/
def bytes (f : Frame) : Bytes := f.header ++ f.data

theorem header_inj {f g : Frame} (same : f.header = g.header) :
    f.version = g.version ∧ f.cmd = g.cmd ∧ f.streamID = g.streamID ∧
      f.data.length = g.data.length := by
  simp only [header, cons.injEq] at same
  obtain ⟨version, cmd, rest⟩ := same
  obtain ⟨length, stream⟩ := append_inj rest rfl
  refine ⟨version, Cmd.code_injective cmd, ?_, ?_⟩
  · exact UInt32.toNat_inj.mp (le32_inj stream f.streamID.toNat_lt g.streamID.toNat_lt)
  · have same := le16_inj length
    rwa [Nat.mod_eq_of_lt f.short, Nat.mod_eq_of_lt g.short] at same

/-- Where a frame ends can be told from its header. -/
theorem bytes_inj {f g : Frame} {l l' : Bytes} (same : f.bytes ++ l = g.bytes ++ l') :
    f = g ∧ l = l' := by
  simp only [bytes, append_assoc] at same
  obtain ⟨header, rest⟩ := append_inj same rfl
  obtain ⟨version, cmd, stream, length⟩ := header_inj header
  obtain ⟨data, rest⟩ := append_inj rest length
  cases f
  cases g
  simp_all

/-- The frames one after another. -/
def stream (frames : List Frame) : Bytes := (frames.map bytes).flatten

@[simp] theorem stream_nil : stream [] = [] := rfl

@[simp] theorem stream_cons (f : Frame) (frames : List Frame) :
    stream (f :: frames) = f.bytes ++ stream frames := rfl

@[simp] theorem stream_append (frames frames' : List Frame) :
    stream (frames ++ frames') = stream frames ++ stream frames' := by
  simp [stream]

theorem bytes_length (f : Frame) : f.bytes.length = 8 + f.data.length := by
  simp [bytes, header, le16, le32]
  omega

theorem stream_length_perm {frames frames' : List Frame} (perm : frames.Perm frames') :
    (stream frames).length = (stream frames').length := by
  simp only [stream, length_flatten, map_map]
  exact (perm.map _).sum_nat

theorem stream_injective : Function.Injective stream := by
  intro frames
  induction frames with
  | nil =>
    intro frames' same
    cases frames' with
    | nil => rfl
    | cons g frames' =>
      have length := congrArg length same
      simp only [stream_nil, stream_cons, length_nil, length_append, bytes_length] at length
      omega
  | cons f frames ih =>
    intro frames' same
    cases frames' with
    | nil =>
      have length := congrArg length same
      simp only [stream_nil, stream_cons, length_nil, length_append, bytes_length] at length
      omega
    | cons g frames' =>
      obtain ⟨rfl, rest⟩ := bytes_inj same
      rw [ih rest]

/-- The channel in which a frame waits. -/
def queue (f : Frame) : Option Queue :=
  if f.data = [] then
    match f.cmd with
    | .syn => some .syn
    | .fin => some .fin
    | _ => none
  else none

theorem queueOf_bytes (f : Frame) : queueOf f.bytes = f.queue := by
  have six : (le16 f.data.length ++ le32 f.streamID.toNat ++ f.data).length = 6 ↔ f.data = [] := by
    simp [le16, le32]
  simp only [bytes, header, cons_append, queueOf, six, queue]
  by_cases control : f.data = []
  · simp only [control, f.known, and_self, if_true]
    cases f.cmd <;> rfl
  · simp only [control, false_and, if_false]

def Waits (f : Frame) : Prop := f.queue.isSome

instance (f : Frame) : Decidable f.Waits := inferInstanceAs (Decidable (f.queue.isSome = true))

end Frame

end TrojanGo.Mux
