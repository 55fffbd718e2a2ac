import TrojanGo.Master.Handlers
import TrojanGo.NodeSync.Wire
import TrojanGo.Plane.Outbox
import Mathlib.Algebra.Order.BigOperators.Group.List

/-!
# The data-plane process

What connections, the administrator, the reporters of traffic and the embedded traffic worker
share. Removed user objects stay in the heap for the connections that hold them. The state also
keeps books that no operation reads.
-/
namespace TrojanGo.Plane

open Lib NodeSync

/-- The goroutines of the process. `κ` names the reporters that share the outbox file. -/
inductive Actor (κ : Type) where
  | conn (n : Nat)
  | client (c : κ)
  | admin (n : Nat)
  | embedded
  deriving DecidableEq

/-- A user object of an authenticator. Received bytes are the user's upload. -/
structure Meter (κ : Type) where
  auth : Nat
  hash : String
  sent : Nat := 0
  recv : Nat := 0
  /-- who holds the traffic lock -/
  holder : Option (Actor κ) := none

namespace Meter

variable {κ : Type}

def count (m : Meter κ) : Dir → Nat
  | .up => m.recv
  | .down => m.sent

def put (m : Meter κ) (d : Dir) (n : Nat) : Meter κ :=
  match d with
  | .up => { m with recv := n }
  | .down => { m with sent := n }

section

variable (m : Meter κ) (d : Dir) (n : Nat)

include m d n

@[simp] theorem put_auth : (m.put d n).auth = m.auth := by
  cases d <;> rfl

@[simp] theorem put_hash : (m.put d n).hash = m.hash := by
  cases d <;> rfl

@[simp] theorem put_holder : (m.put d n).holder = m.holder := by
  cases d <;> rfl

end

theorem put_count (m : Meter κ) (d d' : Dir) (n : Nat) :
    (m.put d n).count d' = if d' = d then n else m.count d' := by
  cases d <;> cases d' <;> rfl

end Meter

/-- Bytes per user and direction. -/
abbrev Book := String → Dir → Nat

def Book.add (book : Book) (hash : String) (d : Dir) (n : Nat) : Book :=
  fun h d' => if h = hash ∧ d' = d then book h d' + n else book h d'

theorem Book.add_apply (book : Book) (hash : String) (d : Dir) (n : Nat) (h : String) (d' : Dir) :
    book.add hash d n h d' = book h d' + if h = hash ∧ d' = d then n else 0 := by
  unfold Book.add
  split <;> simp

abbrev Batches := Finmap fun _ : String => Amounts

/-- The bytes of all batches, each sync ID once. -/
def batched (batches : Batches) : Book :=
  fun h d => total batches fun batch => (value batch h).get d

/-- The bytes in flight, unless the batch is acknowledged already. -/
def inFlight (acked : Batches) (st : State) : Book :=
  fun h d => if st.pendingSyncID = "" ∨ st.pendingSyncID ∈ acked then 0 else (value st.pending h).get d

/-- The bytes that an outbox state and the acknowledged batches account for. -/
def held (acked : Batches) (st : State) : Book :=
  fun h d => (value st.queued h).get d + (batched acked h d + inFlight acked st h d)

structure World (κ : Type) where
  meters : List (Meter κ) := []
  /-- each authenticator's user map -/
  registry : Nat → String → Option Nat := fun _ _ => none
  disk : Disk := .absent
  db : Master.Db := {}
  /-- sync IDs drawn so far -/
  ids : List String := []
  sent : Batches := ∅
  acked : Batches := ∅
  /-- who wrote the outbox file since the process started -/
  writer : Option κ := none
  /-- the outbox state the process started from -/
  boot : State := State.normalize {}
  counted : Book := fun _ _ => 0
  /-- bytes removed from counters after a durable checkpoint -/
  taken : Book := fun _ _ => 0
  /-- bytes removed from counters by subtraction -/
  drained : Book := fun _ _ => 0
  /-- bytes removed from counters without a checkpoint, or wrapped around -/
  gone : Book := fun _ _ => 0
  /-- bytes that restarts have cost -/
  lost : Book := fun _ _ => 0
  /-- bytes committed to the database and not yet subtracted from their counters -/
  owed : Book := fun _ _ => 0
  /-- bytes that were committed to the database although an error was reported -/
  repeated : Book := fun _ _ => 0
  /-- some subtraction exceeded its counter -/
  saturated : Bool := false
  /-- some state was not saved because it does not validate -/
  refused : Bool := false

namespace World

variable {κ : Type}

/-- The bytes in all counters of a user, whether its objects are still listed or not. -/
def live (s : World κ) : Book :=
  fun h d => (s.meters.map fun m => if m.hash = h then m.count d else 0).sum

def setMeter (s : World κ) (i : Nat) (m : Meter κ) : World κ := { s with meters := s.meters.set i m }

/-- Replacing an object by one of the same user moves the live bytes by the difference. -/
theorem live_set {s : World κ} {i : Nat} {m m' : Meter κ} (found : s.meters[i]? = some m)
    (same : m'.hash = m.hash) (h : String) (d : Dir) :
    (s.setMeter i m').live h d + (if h = m.hash then m.count d else 0) =
      s.live h d + if h = m.hash then m'.count d else 0 := by
  have moved := sum_map_set s.meters (fun m => if m.hash = h then m.count d else 0) m' found
  simp only [same] at moved
  simpa only [live, setMeter, eq_comm (a := h)] using moved

theorem count_le_live {s : World κ} {i : Nat} {m : Meter κ} (found : s.meters[i]? = some m)
    (d : Dir) : m.count d ≤ s.live m.hash d := by
  have mem := List.mem_of_getElem? found
  have term : m.count d ∈ s.meters.map fun m' => if m'.hash = m.hash then m'.count d else 0 :=
    List.mem_map.mpr ⟨m, mem, by simp⟩
  exact List.single_le_sum (fun _ _ => Nat.zero_le _) _ term

/-- A restart keeps the outbox file and the database. What the file or an acknowledged batch
accounts for survives; every other byte counted so far is lost. -/
def restart (s : World κ) : World κ :=
  let taken : Book := fun h d => max (s.taken h d) (held s.acked s.disk.content h d)
  { s with
    meters := []
    registry := fun _ _ => none
    writer := none
    boot := s.disk.content
    taken := taken
    drained := fun _ _ => 0
    gone := fun _ _ => 0
    lost := fun h d => s.counted h d - taken h d
    owed := fun _ _ => 0 }

end World

/-! ### The local database -/

def nextID (users : List Master.User) : Nat := (users.map Master.User.id).foldl max 0 + 1

def restrictUsers (db : Master.Db) (hashes : List String) : Master.Db :=
  { db with
    users := db.users.filter fun u => u.hash ∈ hashes
    userIndex := db.userIndex.sublist (List.filter_sublist.map _) }

def insertUser (db : Master.Db) (hash : String) : Master.Db :=
  if absent : hash ∉ db.users.map Master.User.hash then
    { db with
      users :=
        { id := nextID db.users, hash := hash
          username := "sync-user-" ++ String.ofList (hash.toList.take 6) } :: db.users
      userIndex := List.nodup_cons.mpr ⟨absent, db.userIndex⟩ }
  else db

/-- The transaction that makes the local user table a cache of the master's list. -/
def cacheUsers (db : Master.Db) (hashes : List String) : Master.Db :=
  hashes.foldl insertUser (restrictUsers db hashes)

/-- The transaction of the embedded traffic worker. -/
def embeddedTx (snapshots : TrafficMap) : Master.Tx Unit := do
  let increments ← liftM (Master.trafficIncrements (.ofNat 1) snapshots.entries)
  Master.persistTrafficIncrements increments

/-! ### Operations -/

inductive Removal where
  | removed
  | missing
  | failed
  deriving DecidableEq, Repr

inductive Op (κ : Type) where
  | listUsers (auth : Nat)
  | mapLoad (auth : Nat) (hash : String)
  | mapStore (auth : Nat) (hash : String)
  | mapDelete (auth : Nat) (hash : String)
  | lock (me : Actor κ) (i : Nat)
  | unlock (me : Actor κ) (i : Nat)
  | load (i : Nat) (d : Dir)
  | add (me : Actor κ) (i : Nat) (d : Dir) (n : Nat)
  | clear (me : Actor κ) (i : Nat) (d : Dir) (checkpointed : Bool)
  | subtract (me : Actor κ) (i : Nat) (d : Dir) (n : Nat)
  /-- an operation on a directory or a temporary file, which nobody else sees -/
  | attempt
  /-- a state that does not validate, which is only noted in the books -/
  | refuse
  | replace (c : κ) (state : StoredState)
  | remove (c : κ)
  | newSyncID
  | post (c : κ) (syncID : String) (batch : Amounts) (accepts : Response → Bool)
  | syncReady
  | commit (snapshots : TrafficMap)
  | cacheUsers (hashes : List String)

@[reducible] def Res {κ : Type} : Op κ → Type
  | .listUsers _ => List (Nat × String)
  | .mapLoad _ _ => Option Nat
  | .mapStore _ _ | .mapDelete _ _ => Unit
  | .lock _ _ | .unlock _ _ => Unit
  | .load _ _ => Nat
  | .add _ _ _ _ | .clear _ _ _ _ | .subtract _ _ _ _ => Unit
  | .attempt => Bool
  | .refuse => Unit
  | .replace _ _ => Bool
  | .remove _ => Removal
  | .newSyncID => Option String
  | .post _ _ _ _ => Option Response
  | .syncReady => Bool
  | .commit _ => Except Master.TxError Unit
  | .cacheUsers _ => Bool

/-- How an operation fares: whether it reports success, whether a failed one took effect
nevertheless, the identifier drawn, the order of a range loop, the answer of the network. -/
structure Fate where
  ok : Bool := true
  after : Bool := false
  id : String := ""
  order : List Nat := []
  response : Option Response := none

section Exec

variable {κ : Type} [DecidableEq κ]

/-- Change one direction of an object whose lock the actor holds. -/
def World.meterOp (s : World κ) (me : Actor κ) (i : Nat)
    (change : Meter κ → World κ → World κ) : Option (Unit × World κ) :=
  match s.meters[i]? with
  | none => none
  | some m => if m.holder = some me then some ((), change m s) else none

/-- The objects a range over an authenticator's map visits, if there is such a range: each at
most once, and only objects that were stored in this map at some time. -/
def World.visit (s : World κ) (auth : Nat) : List Nat → Option (List (Nat × String))
  | [] => some []
  | i :: rest =>
    match s.meters[i]? with
    | none => none
    | some m =>
      if m.auth = auth ∧ i ∉ rest then (s.visit auth rest).map ((i, m.hash) :: ·) else none

def World.write (s : World κ) (c : κ) (disk : Disk) : World κ :=
  { s with disk := disk, writer := some c }

def exec : Prog.Exec (World κ) Fate (Op κ) Res
  | fate, s, .listUsers auth => (s.visit auth fate.order).map fun users => (users, s)
  | _, s, .mapLoad auth hash => some (s.registry auth hash, s)
  | _, s, .mapStore auth hash =>
    some ((), { s with
      meters := s.meters ++ [{ auth := auth, hash := hash }]
      registry := fun a h => if a = auth ∧ h = hash then some s.meters.length else s.registry a h })
  | _, s, .mapDelete auth hash =>
    some ((), { s with
      registry := fun a h => if a = auth ∧ h = hash then none else s.registry a h })
  | _, s, .lock me i =>
    match s.meters[i]? with
    | none => none
    | some m =>
      if m.holder = none then some ((), s.setMeter i { m with holder := some me }) else none
  | _, s, .unlock me i => s.meterOp me i fun m s => s.setMeter i { m with holder := none }
  | _, s, .load i d => (s.meters[i]?).map fun m => (m.count d, s)
  | _, s, .add me i d n => s.meterOp me i fun m s =>
    -- the counters are 64-bit words
    let sum := m.count d + n
    { s.setMeter i (m.put d (sum % word)) with
      counted := s.counted.add m.hash d n
      gone := s.gone.add m.hash d (sum - sum % word) }
  | _, s, .clear me i d checkpointed => s.meterOp me i fun m s =>
    if checkpointed then
      { s.setMeter i (m.put d 0) with taken := s.taken.add m.hash d (m.count d) }
    else { s.setMeter i (m.put d 0) with gone := s.gone.add m.hash d (m.count d) }
  | _, s, .subtract me i d n => s.meterOp me i fun m s =>
    { s.setMeter i (m.put d (m.count d - n)) with
      drained := s.drained.add m.hash d (min (m.count d) n)
      owed := fun h d' => if h = m.hash ∧ d' = d then s.owed h d' - n else s.owed h d'
      saturated := s.saturated || decide (m.count d < n) }
  | fate, s, .attempt => some (fate.ok, s)
  | _, s, .refuse => some ((), { s with refused := true })
  | fate, s, .replace c state =>
    some (fate.ok, if fate.ok ∨ fate.after then s.write c (.stored state) else s)
  | fate, s, .remove c =>
    match s.disk with
    | .absent => some (.missing, s.write c .absent)
    | _ =>
      if fate.ok then some (.removed, s.write c .absent)
      else some (.failed, if fate.after then s.write c .absent else s)
  | fate, s, .newSyncID =>
    if fate.ok then
      -- identifiers are random; drawing one twice is not considered
      if fate.id ≠ "" ∧ fate.id ∉ s.ids then
        some (some fate.id, { s with ids := fate.id :: s.ids })
      else none
    else some (none, s)
  | fate, s, .post _ syncID batch accepts =>
    if batch = ∅ then some (fate.response, s)
    else
      some (fate.response, { s with
        sent := s.sent.insert syncID batch
        acked := match fate.response with
          | some response => if accepts response then s.acked.insert syncID batch else s.acked
          | none => s.acked })
  | fate, s, .syncReady => some (fate.ok, s)
  | fate, s, .commit snapshots =>
    match embeddedTx snapshots s.db with
    | .error reason => some (.error (if fate.ok then reason else .database), s)
    | .ok ((), db) =>
      if fate.ok then
        some (.ok (), { s with
          db := db
          owed := fun h d => s.owed h d + ((snapshots.lookup h).getD 0).get d })
      else if fate.after then
        some (.error .database, { s with
          db := db
          repeated := fun h d => s.repeated h d + ((snapshots.lookup h).getD 0).get d })
      else some (.error .database, s)
  | fate, s, .cacheUsers hashes =>
    some (fate.ok, if fate.ok then { s with db := cacheUsers s.db hashes } else s)

end Exec

end TrojanGo.Plane
