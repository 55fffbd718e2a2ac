import TrojanGo.Lib.Threads
import TrojanGo.Tunnel.Address

/-!
# Datagrams in pooled buffers

The relay loop of a session reads each datagram into a buffer of the shared pool and queues the
filled part of that buffer, which is not copied. Every goroutine is a thread of its own, and a
round of a loop is one call.
-/
namespace TrojanGo.Relay

open Lib Function
open Tunnel (Address)

/-! ### Buffers -/

def bufferSize : Nat := 64 * 1024

/-- The bytes of a buffer, by position. -/
abbrev Buffer := Nat → UInt8

/-- What `copy` leaves in a buffer. -/
def overwrite (b : Buffer) (data : Bytes) : Buffer := fun k =>
  if k < data.length then data.getD k 0 else b k

/-- `buf[:n]`. -/
def filled (b : Buffer) (n : Nat) : Bytes := (List.range n).map b

theorem filled_overwrite (b : Buffer) (data : Bytes) :
    filled (overwrite b data) data.length = data := by
  refine List.ext_getElem (by simp [filled]) fun k _ within => ?_
  simp [filled, overwrite, within]

/-- `PutBuffer` zeroes the start of the buffer. -/
def cleared (b : Buffer) : Buffer := fun k => if k < 2048 then 0 else b k

/-! ### Sessions -/

inductive Kind where
  | socks
  | dokodemo
  deriving DecidableEq

/-- How many datagrams the queue of a session holds. -/
def Kind.capacity : Kind → Nat
  | .socks => 128
  | .dokodemo => 16

/-- A datagram as it is read from the remote side. -/
structure Datagram where
  address : Address
  payload : Bytes
  deriving DecidableEq

/-- A datagram to the client; on the wire the payload follows the header. -/
structure Packet where
  header : Bytes
  payload : Bytes
  deriving DecidableEq

def Kind.packet (kind : Kind) (d : Datagram) : Packet where
  header :=
    match kind with
    -- RSV and FRAG
    | .socks => [0, 0, 0] ++ d.address.writeTo
    | .dokodemo => []
  payload := d.payload

/-- An element of a queue: the filled part of a buffer. -/
structure Slice where
  session : Nat
  buf : Nat
  n : Nat
  address : Address
  deriving DecidableEq

/-- Who uses a buffer of the pool: the relay loop of a session, or anything else that copies. -/
inductive Owner where
  | relay (session : Nat)
  | copier (id : Nat)
  deriving DecidableEq

structure World where
  kinds : Nat → Kind
  heap : Nat → Buffer := fun _ _ => 0
  /-- the buffers in use; the others are in the pool or not made yet -/
  owner : Nat → Option Owner := fun _ => none
  queue : List Slice := []
  /-- what senders have taken from their queues and not sent yet -/
  hand : List Slice := []
  closed : Nat → Bool := fun _ => false
  /-- the servers' context is cancelled -/
  stopped : Bool := false
  /- the history: what each session has read from the remote side and sent to its client -/
  received : Nat → List Datagram := fun _ => []
  sent : Nat → List Packet := fun _ => []

/-- What a slice holds now. -/
def World.view (w : World) (s : Slice) : Datagram := ⟨s.address, filled (w.heap s.buf) s.n⟩

def ofSession (i : Nat) (slices : List Slice) : List Slice :=
  slices.filter fun s => s.session = i

def without (i : Nat) (slices : List Slice) : List Slice :=
  slices.filter fun s => s.session ≠ i

/-! ### Operations -/

/-- Why a sender wakes up. -/
inductive Wake where
  | packet (slice : Slice)
  | timeout
  | done
  deriving DecidableEq

inductive Op where
  | getBuffer (owner : Owner)
  | putBuffer (buf : Nat)
  | readWithMetadata (session buf : Nat)
  | writeWithMetadata (session buf n : Nat) (address : Address)
  | fill (buf : Nat)
  | select (session : Nat)
  | writeTo (slice : Slice)
  | retire (session : Nat) (closes : Bool)
  | cancel (session : Nat)
  | stop
  deriving DecidableEq

@[reducible] def Res : Op → Type
  | .getBuffer _ => Nat
  | .readWithMetadata _ _ => Option (Nat × Address)
  | .writeWithMetadata _ _ _ _ | .writeTo _ => Bool
  | .select _ => Wake
  | .putBuffer _ | .fill _ | .retire _ _ | .cancel _ | .stop => Unit

/-- How an operation fares: which buffer the pool gives, what arrives, which bytes a copy or a
failed read leaves in its buffer, whether a write succeeds and whether a sender waits in vain. -/
structure Fate where
  buffer : Nat := 0
  incoming : Option Datagram := none
  data : Bytes := []
  ok : Bool := true
  timeout : Bool := false

def World.load (w : World) (buf : Nat) (data : Bytes) : World :=
  { w with heap := update w.heap buf (overwrite (w.heap buf) (data.take bufferSize)) }

/-- The first slice that a session has queued, and the other slices. -/
def dequeue (i : Nat) : List Slice → Option (Slice × List Slice)
  | [] => none
  | s :: rest =>
    if s.session = i then some (s, rest)
    else (dequeue i rest).map fun found => (found.1, s :: found.2)

def exec (fate : Fate) (w : World) : (op : Op) → Option (Res op × World)
  | .getBuffer owner =>
    if w.owner fate.buffer = none then
      some (fate.buffer, { w with owner := update w.owner fate.buffer (some owner) })
    else none
  | .putBuffer buf =>
    some ((), { w with
      heap := update w.heap buf (cleared (w.heap buf))
      owner := update w.owner buf none })
  | .readWithMetadata i buf =>
    match fate.incoming with
    | none => some (none, w.load buf fate.data)
    | some d =>
      let d := { d with payload := d.payload.take bufferSize }
      some (some (d.payload.length, d.address),
        { w.load buf d.payload with
          received := update w.received i (w.received i ++ [d]) })
  | .writeWithMetadata i buf n address =>
    -- the queue has room, or the session is closed; otherwise the write waits
    if fate.ok then
      if (ofSession i w.queue).length < (w.kinds i).capacity then
        some (true, { w with queue := w.queue ++ [⟨i, buf, n, address⟩] })
      else none
    else if w.closed i ∨ w.stopped then some (false, w) else none
  | .fill buf => some ((), w.load buf fate.data)
  | .select i =>
    if fate.timeout then some (.timeout, w)
    else if fate.ok then
      (dequeue i w.queue).map fun (s, rest) =>
        (.packet s, { w with queue := rest, hand := w.hand ++ [s] })
    -- the sender of a dokodemo session does not watch the context of its session
    else if w.closed i ∧ w.kinds i = .socks ∨ w.stopped then some (.done, w)
    else none
  | .writeTo s =>
    let i := s.session
    if fate.ok then
      some (true, { w with
        hand := without i w.hand
        sent := update w.sent i (w.sent i ++ [(w.kinds i).packet (w.view s)]) })
    else some (false, { w with hand := without i w.hand })
  | .retire i closes =>
    some ((), { w with
      queue := without i w.queue
      hand := without i w.hand
      closed := if closes then update w.closed i true else w.closed })
  | .cancel i => some ((), { w with closed := update w.closed i true })
  | .stop => some ((), { w with stopped := true })

/-! ### Threads -/

inductive Role where
  | relay (session : Nat)
  | sender (session : Nat)
  /-- the other direction of a session, and both directions of a stream relay -/
  | copier (id : Nat)
  /-- whoever ends a session or stops the servers -/
  | control (session : Nat)
  deriving DecidableEq

/-- Where a goroutine is in its loop. -/
inductive Mem where
  | new
  | looping (buf : Nat)
  | ended
  deriving DecidableEq

inductive Call where
  | begin
  | iterate
  | finish
  deriving DecidableEq

abbrev Routine := Prog Op Res

abbrev ask (op : Op) : Routine (Res op) := Prog.ask op

def copyEnds (buf : Nat) : Routine Mem := do
  ask (.putBuffer buf)
  return .ended

/-- A round of `copyPacket` towards the client. -/
def copyPacket (i buf : Nat) : Routine Mem := do
  match ← ask (.readWithMetadata i buf) with
  | none => copyEnds buf
  | some (n, address) =>
    if n = 0 then copyEnds buf
    else if ← ask (.writeWithMetadata i buf n address) then return .looping buf
    else copyEnds buf

/-- A round of the goroutine that sends to the client. The one of a socks session closes its
session whenever it returns. -/
def send (kind : Kind) (i : Nat) : Routine Mem := do
  match ← ask (.select i) with
  | .packet s =>
    if ← ask (.writeTo s) then return .new
    else
      ask (.retire i (kind = .socks))
      return .ended
  | .timeout =>
    ask (.retire i true)
    return .ended
  | .done =>
    ask (.retire i (kind = .socks))
    return .ended

def body (kinds : Nat → Kind) : Role → Call → Mem → Option (Routine Mem)
  | .relay i, .begin, .new => some do return .looping (← ask (.getBuffer (.relay i)))
  | .relay i, .iterate, .looping buf => some (copyPacket i buf)
  | .sender i, .iterate, .new => some (send (kinds i) i)
  | .copier k, .begin, .new => some do return .looping (← ask (.getBuffer (.copier k)))
  | .copier _, .iterate, .looping buf => some do
      ask (.fill buf)
      return .looping buf
  | .copier _, .finish, .looping buf => some (copyEnds buf)
  | .control i, .finish, .new => some do
      ask (.cancel i)
      return .ended
  | .control _, .begin, .new => some do
      ask .stop
      return .ended
  | _, _, _ => none

def machine (kinds : Nat → Kind) :
    Machine Role World Fate (fun _ => Call) (fun _ => Mem) Op Res where
  exec := exec
  body := body kinds
  reboot := fun _ => none
  memory := fun _ _ => .new

/-- A slice is sent before its buffer is read into again and before it goes back to the
pool. -/
def SendsFirst (w : World) : Op → Prop
  | .readWithMetadata _ buf | .putBuffer buf => ∀ s ∈ w.hand ++ w.queue, s.buf ≠ buf
  | _ => True

instance (w : World) (op : Op) : Decidable (SendsFirst w op) := by
  unfold SendsFirst
  split <;> infer_instance

end TrojanGo.Relay
