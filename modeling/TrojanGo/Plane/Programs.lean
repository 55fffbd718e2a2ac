import TrojanGo.Plane.World

/-!
# The programs of the data plane

The code the actors run, as programs over the atomic operations.
-/
namespace TrojanGo.Plane

open Lib NodeSync

variable {κ : Type} {μ : Type}

abbrev Routine (κ : Type) := Prog (Op κ) Res

abbrev ask (op : Op κ) : Routine κ (Res op) := Prog.ask op

abbrev lock (me : Actor κ) (i : Nat) : Routine κ Unit := ask (.lock me i)

abbrev unlock (me : Actor κ) (i : Nat) : Routine κ Unit := ask (.unlock me i)

abbrev load (i : Nat) (d : Dir) : Routine κ Nat := ask (.load i d)

abbrev clear (me : Actor κ) (i : Nat) (d : Dir) (checkpointed : Bool) : Routine κ Unit :=
  ask (.clear me i d checkpointed)

abbrev mapLoad (auth : Nat) (hash : String) : Routine κ (Option Nat) := ask (.mapLoad auth hash)

abbrev listUsers (auth : Nat) : Routine κ (List (Nat × String)) := ask (.listUsers auth)

abbrev newSyncID : Routine κ (Option String) := ask .newSyncID

abbrev post (c : κ) (syncID : String) (batch : Amounts) (accepts : Response → Bool) :
    Routine κ (Option Response) := ask (.post c syncID batch accepts)

/-! ### User objects -/

def addTraffic64 (me : Actor κ) (i : Nat) (sent recv : Nat) : Routine κ Unit := do
  lock me i
  ask (.add me i .down sent)
  ask (.add me i .up recv)
  unlock me i

/-- `AddTraffic` without its rate limiters, which only delay it. -/
def addTraffic (me : Actor κ) (i : Nat) (sent recv : Int) : Routine κ Unit :=
  if sent < 0 ∨ recv < 0 then pure () else addTraffic64 me i sent.toNat recv.toNat

def subtractTraffic (me : Actor κ) (i : Nat) (sent recv : Nat) : Routine κ Unit := do
  lock me i
  ask (.subtract me i .down sent)
  ask (.subtract me i .up recv)
  unlock me i

/-- Two loads without the lock. -/
def getTraffic (i : Nat) : Routine κ (Nat × Nat) := do
  let sent ← load i .down
  let recv ← load i .up
  return (sent, recv)

/-- The counters are cleared once the checkpoint, if there is one, has succeeded. The
checkpoint works on the memory of its caller, which it returns with its error. -/
def takeTraffic (me : Actor κ) (i : Nat) (memory : μ)
    (checkpoint : Option (Nat → Nat → Routine κ (μ × Option String))) :
    Routine κ (μ × Option String) := do
  lock me i
  let sent ← load i .down
  let recv ← load i .up
  if sent = 0 ∧ recv = 0 then
    unlock me i
    return (memory, none)
  else
    match checkpoint with
    | some run => do
      let (memory, failure) ← run sent recv
      match failure with
      | some reason => do
        unlock me i
        return (memory, some reason)
      | none => do
        clear me i .down true
        clear me i .up true
        unlock me i
        return (memory, none)
    | none => do
      clear me i .down false
      clear me i .up false
      unlock me i
      return (memory, none)

def resetTraffic (me : Actor κ) (i : Nat) : Routine κ Unit := do
  let _ ← takeTraffic me i () none

/-! ### Authenticators -/

def addUser (auth : Nat) (hash : String) : Routine κ (Except String Unit) := do
  match ← mapLoad auth hash with
  | some _ => return .error s!"hash {hash} is already exist"
  | none => do
    ask (.mapStore auth hash)
    return .ok ()

def delUser (me : Actor κ) (auth : Nat) (hash : String) : Routine κ (Except String Unit) := do
  match ← mapLoad auth hash with
  | none => return .error s!"hash {hash} not found"
  | some i => do
    resetTraffic me i
    ask (.mapDelete auth hash)
    return .ok ()

/-! ### The outbox file -/

/-- File operations that must all succeed, each with the text it fails with. -/
def attempts : List String → Routine κ (Except String Unit)
  | [] => return .ok ()
  | text :: rest => do
    if ← ask .attempt then attempts rest else return .error text

def removeOutbox (c : κ) : Routine κ (Except String Unit) := do
  match ← ask (.remove c) with
  | .missing => return .ok ()
  | .failed => return .error "remove traffic outbox"
  | .removed => attempts ["sync traffic outbox directory after remove"]

def saveOutbox (c : κ) (state : State) : Routine κ (Except String Unit) :=
  match checked : state.normalize.validate with
  | .error reason => do
    ask .refuse
    return .error s!"validate traffic outbox state: {reason}"
  | .ok () =>
    if state.normalize.isEmpty then removeOutbox c
    else do
      match ← attempts ["create traffic outbox directory", "create traffic outbox temporary file",
        "secure traffic outbox temporary file", "write traffic outbox temporary file",
        "sync traffic outbox temporary file", "close traffic outbox temporary file"] with
      | .error reason => return .error reason
      | .ok () =>
        if ← ask (.replace c ⟨state.normalize, checked, rfl⟩) then
          attempts ["sync traffic outbox directory"]
        else return .error "replace traffic outbox"

/-- How a reporter keeps the parts of the outbox state in its memory, and what its error
texts call them. -/
structure Owner (μ : Type) where
  queued : μ → Amounts
  setQueued : μ → Amounts → μ
  state : μ → State
  /-- no batch is in flight -/
  idle : μ → Bool
  /-- move the queue into a batch under this sync ID -/
  frozen : μ → String → μ
  /-- drop the batch and put the queue back -/
  thawed : μ → Amounts → μ
  /-- drop the batch -/
  cleared : μ → μ
  /-- put the batch of the given memory back -/
  restored : μ → μ → μ
  subject : String
  noSyncID : String
  freezeText : String
  acknowledgeText : String
  idle_pending : ∀ m, idle m = true → (state m).pending = ∅
  queued_eq : ∀ m, queued m = (state m).queued
  state_setQueued : ∀ m q, state (setQueued m q) = { state m with queued := q }
  setQueued_twice : ∀ m q, setQueued (setQueued m q) (queued m) = m
  state_frozen : ∀ m id, state (frozen m id) =
    { state m with pendingSyncID := id, pending := queued m, queued := ∅ }
  state_thawed : ∀ m q, state (thawed m q) =
    { state m with pendingSyncID := "", pending := ∅, queued := q }
  state_cleared : ∀ m, state (cleared m) = { state m with pendingSyncID := "", pending := ∅ }
  restored_cleared : ∀ m, restored (cleared m) m = m

/-- The checkpoint both reporters hand to `TakeTraffic`. -/
def checkpoint (o : Owner μ) (c : κ) (hash : String) (memory : μ) (sent recv : Nat) :
    Routine κ (μ × Option String) := do
  let queued := o.queued memory
  let current := value queued hash
  if current.up > word - 1 - recv ∨ current.down > word - 1 - sent then
    return (memory, some s!"{o.subject} aggregation overflow for user {hash}")
  else
    let updated := o.setQueued memory
      (queued.insert hash ⟨current.up + recv, current.down + sent⟩)
    match ← saveOutbox c (o.state updated) with
    | .error reason =>
      let restored := restore (o.queued updated) hash (queued.lookup hash)
      return (o.setQueued updated restored, some s!"checkpoint {o.subject} for user {hash}: {reason}")
    | .ok () => return (updated, none)

/-- Take the traffic of the listed users, until one fails. -/
def collectUsers (o : Owner μ) (c : κ) : List (Nat × String) → μ → Routine κ (μ × Option String)
  | [], memory => return (memory, none)
  | (i, hash) :: rest, memory => do
    let (memory, failure) ←
      takeTraffic (.client c) i memory (some fun sent recv => checkpoint o c hash memory sent recv)
    match failure with
    | some reason => return (memory, some reason)
    | none => collectUsers o c rest memory

def collectAuths (o : Owner μ) (c : κ) : List Nat → μ → Routine κ (μ × Option String)
  | [], memory => return (memory, none)
  | auth :: rest, memory => do
    let users ← listUsers auth
    let (memory, failure) ← collectUsers o c users memory
    match failure with
    | some reason => return (memory, some reason)
    | none => collectAuths o c rest memory

/-- Without a batch in flight, the queue becomes the next batch under a fresh sync ID. -/
def freeze (o : Owner μ) (c : κ) (memory : μ) : Routine κ (μ × Option String) := do
  if o.idle memory ∧ o.queued memory ≠ ∅ then
    match ← newSyncID with
    | none => return (memory, some o.noSyncID)
    | some syncID =>
      match ← saveOutbox c (o.state (o.frozen memory syncID)) with
      | .error reason =>
        return (o.thawed (o.frozen memory syncID) (o.queued memory),
          some s!"{o.freezeText}: {reason}")
      | .ok () => return (o.frozen memory syncID, none)
  else return (memory, none)

/-- Discard the batch that was acknowledged. -/
def acknowledge (o : Owner μ) (c : κ) (memory : μ) : Routine κ (μ × Option String) := do
  match ← saveOutbox c (o.state (o.cleared memory)) with
  | .error reason =>
    return (o.restored (o.cleared memory) memory, some s!"{o.acknowledgeText}: {reason}")
  | .ok () => return (o.cleared memory, none)

/-! ### The node sync manager -/

structure Manager where
  pendingSyncID : String := ""
  pendingTraffic : Amounts := ∅
  queuedTraffic : Amounts := ∅
  outboxLoadError : Option String := none
  failureCount : Nat := 0
  /-- the reason of the last recorded failure -/
  warning : Option String := none

namespace Manager

def state (m : Manager) : State :=
  { pendingSyncID := m.pendingSyncID, pending := m.pendingTraffic, queued := m.queuedTraffic }

def owner : Owner Manager where
  queued := Manager.queuedTraffic
  setQueued := fun m queued => { m with queuedTraffic := queued }
  state := state
  idle := fun m => decide (m.pendingTraffic = ∅)
  frozen := fun m syncID =>
    { m with pendingTraffic := m.queuedTraffic, queuedTraffic := ∅, pendingSyncID := syncID }
  thawed := fun m queued =>
    { m with pendingTraffic := ∅, queuedTraffic := queued, pendingSyncID := "" }
  cleared := fun m => { m with pendingTraffic := ∅, pendingSyncID := "" }
  restored := fun m old =>
    { m with pendingTraffic := old.pendingTraffic, pendingSyncID := old.pendingSyncID }
  subject := "traffic"
  noSyncID := "failed to generate idempotency key"
  freezeText := "failed to freeze traffic outbox batch"
  acknowledgeText := "failed to acknowledge traffic outbox batch"
  idle_pending := fun _ idle => of_decide_eq_true idle
  queued_eq := fun _ => rfl
  state_setQueued := fun _ _ => rfl
  setQueued_twice := fun _ _ => rfl
  state_frozen := fun _ _ => rfl
  state_thawed := fun _ _ => rfl
  state_cleared := fun _ => rfl
  restored_cleared := fun _ => rfl

def recordSyncFailure (m : Manager) (reason : String) : Manager :=
  { m with failureCount := m.failureCount + 1, warning := some reason }

def recordSyncSuccess (m : Manager) : Manager := { m with failureCount := 0 }

/-- The sync ID of the request: that of the batch in flight, or a fresh one for a request
without traffic. -/
def requestSyncID (m : Manager) : Routine κ (Option String) :=
  if m.pendingSyncID = "" then newSyncID else return some m.pendingSyncID

def acceptsResponse (response : Response) : Bool :=
  match checkResponse response with
  | .ok _ => true
  | .error _ => false

/-- A request without traffic has nothing to discard. -/
def discard (c : κ) (m : Manager) : Routine κ (Manager × Option String) :=
  if m.pendingTraffic = ∅ then return (m, none) else acknowledge owner c m

/-- Errors of the single changes are only logged. -/
def removeUsers (c : κ) (auth : Nat) : List String → Routine κ Unit
  | [] => return ()
  | hash :: rest => do
    let _ ← delUser (.client c) auth hash
    removeUsers c auth rest

def addUsers (auth : Nat) : List String → Routine κ Unit
  | [] => return ()
  | hash :: rest => do
    let _ ← addUser auth hash
    addUsers auth rest

/-- Bring the authenticators' user maps in line with the master's list. -/
def applyUsers (c : κ) (users : List String) : List Nat → Routine κ Unit
  | [] => return ()
  | auth :: rest => do
    let listed ← listUsers auth
    let known := listed.map Prod.snd
    removeUsers c auth (known.filter fun hash => hash ∉ users)
    addUsers auth (users.filter fun hash => hash ∉ known)
    applyUsers c users rest

def performSync (c : κ) (auths : List Nat) (hasDb : Bool) (m : Manager) : Routine κ Manager := do
  if ← ask .syncReady then
    match m.outboxLoadError with
    | some err => return m.recordSyncFailure s!"traffic outbox unavailable: {err}"
    | none =>
      if auths = [] then return m
      else
        match ← collectAuths owner c auths m with
        | (m, some reason) => return m.recordSyncFailure reason
        | (m, none) =>
          match ← freeze owner c m with
          | (m, some reason) => return m.recordSyncFailure reason
          | (m, none) =>
            match ← m.requestSyncID with
            | none => return m.recordSyncFailure "failed to generate idempotency key"
            | some syncID =>
              match ← post c syncID m.pendingTraffic acceptsResponse with
              | none => return m.recordSyncFailure "request to master failed"
              | some response =>
                match checkResponse response with
                | .error reason => return m.recordSyncFailure reason
                | .ok users =>
                  match ← m.discard c with
                  | (m, some reason) => return m.recordSyncFailure reason
                  | (m, none) => do
                    applyUsers c users auths
                    if hasDb then
                      if ← ask (.cacheUsers users) then return m.recordSyncSuccess
                      else return m.recordSyncFailure "failed to update local user cache"
                    else return m.recordSyncSuccess
  else return m

/-- The manager of a process that starts with this outbox file. -/
def start (disk : Disk) : Manager :=
  match disk.load with
  | .error reason => { outboxLoadError := some reason }
  | .ok state =>
    { pendingSyncID := state.pendingSyncID
      pendingTraffic := state.pending
      queuedTraffic := state.queued }

end Manager

/-! ### The data-plane reporter -/

structure Reporter where
  pending : Option (String × Amounts) := none
  queued : Amounts := ∅
  loadErr : Option String := none

namespace Reporter

def state (r : Reporter) : State :=
  match r.pending with
  | none => { queued := r.queued }
  | some (syncID, traffic) => { pendingSyncID := syncID, pending := traffic, queued := r.queued }

def owner : Owner Reporter where
  queued := Reporter.queued
  setQueued := fun r queued => { r with queued := queued }
  state := state
  idle := fun r => r.pending.isNone
  frozen := fun r syncID => { r with pending := some (syncID, r.queued), queued := ∅ }
  thawed := fun r queued => { r with pending := none, queued := queued }
  cleared := fun r => { r with pending := none }
  restored := fun r old => { r with pending := old.pending }
  subject := "data-plane traffic"
  noSyncID := "generate data-plane traffic sync id"
  freezeText := "freeze data-plane traffic batch"
  acknowledgeText := "acknowledge data-plane traffic batch"
  idle_pending := by
    intro r idle
    simp [state, Option.isNone_iff_eq_none.mp idle]
  queued_eq := by
    intro r
    cases r with
    | mk pending => cases pending <;> rfl
  state_setQueued := by
    intro r q
    cases r with
    | mk pending => cases pending <;> rfl
  setQueued_twice := fun _ _ => rfl
  state_frozen := by
    intro r id
    cases r with
    | mk pending => cases pending <;> rfl
  state_thawed := by
    intro r q
    cases r with
    | mk pending => cases pending <;> rfl
  state_cleared := by
    intro r
    cases r with
    | mk pending => cases pending <;> rfl
  restored_cleared := fun _ => rfl

def acceptsResponse (response : Response) : Bool :=
  ¬ (response.status < 200 ∨ response.status ≥ 300)

def flush (c : κ) (auth : Nat) (r : Reporter) : Routine κ (Reporter × Option String) := do
  match r.loadErr with
  | some err => return (r, some s!"traffic outbox unavailable: {err}")
  | none =>
    match ← collectAuths owner c [auth] r with
    | (r, some reason) => return (r, some reason)
    | (r, none) =>
      match ← freeze owner c r with
      | (r, some reason) => return (r, some reason)
      | (r, none) =>
        match r.pending with
        | none => return (r, none)
        | some (syncID, traffic) =>
          match ← post c syncID traffic acceptsResponse with
          | none => return (r, some "request to traffic endpoint failed")
          | some response =>
            if acceptsResponse response then acknowledge owner c r
            else return (r, some s!"traffic endpoint returned HTTP {response.status}")

/-- The reporter of a process that starts with this outbox file. -/
def start (disk : Disk) : Reporter :=
  match disk.load with
  | .error reason => { loadErr := some reason }
  | .ok state =>
    { pending := if state.pending = ∅ then none else some (state.pendingSyncID, state.pending)
      queued := state.queued }

end Reporter

/-! ### The embedded traffic worker -/

structure Collected where
  user : Nat
  sent : Nat
  recv : Nat

/-- The readings of the first phase: aggregated per user, and per counter. -/
structure Snapshots where
  perHash : TrafficMap := ∅
  perUser : List Collected := []

/-- Snapshot one counter without resetting it. -/
def snapshotUser (i : Nat) (hash : String) (taken : Snapshots) :
    Routine κ (Except String Snapshots) := do
  let (sent, recv) ← getTraffic i
  if sent = 0 ∧ recv = 0 then return .ok taken
  else
    let cur := (taken.perHash.lookup hash).getD 0
    match Master.addTrafficTotals cur.up recv with
    | .error _ => return .error s!"aggregate embedded upload traffic for user {hash}"
    | .ok up =>
      match Master.addTrafficTotals cur.down sent with
      | .error _ => return .error s!"aggregate embedded download traffic for user {hash}"
      | .ok down =>
        return .ok ⟨taken.perHash.insert hash ⟨up, down⟩, taken.perUser ++ [⟨i, sent, recv⟩]⟩

def snapshotUsers : List (Nat × String) → Snapshots → Routine κ (Except String Snapshots)
  | [], taken => return .ok taken
  | (i, hash) :: rest, taken => do
    match ← snapshotUser i hash taken with
    | .error reason => return .error reason
    | .ok taken => snapshotUsers rest taken

def snapshotAuths : List Nat → Snapshots → Routine κ (Except String Snapshots)
  | [], taken => return .ok taken
  | auth :: rest, taken => do
    let users ← listUsers auth
    match ← snapshotUsers users taken with
    | .error reason => return .error reason
    | .ok taken => snapshotAuths rest taken

/-- Subtract from each counter what was read from it. -/
def subtractAll : List Collected → Routine κ Unit
  | [] => return ()
  | collected :: rest => do
    subtractTraffic .embedded collected.user collected.sent collected.recv
    subtractAll rest

def syncEmbeddedTrafficOnce (auths : List Nat) : Routine κ (Except String Unit) := do
  match ← snapshotAuths auths {} with
  | .error reason => return .error reason
  | .ok taken =>
    if taken.perHash.entries = [] then return .ok ()
    else
      match ← ask (.commit taken.perHash) with
      | .error _ => return .error "persist embedded traffic batch"
      | .ok () => do
        subtractAll taken.perUser
        return .ok ()

/-! ### The administrator -/

def syncAuthDelUser (me : Actor κ) (hash : String) : List Nat → Routine κ Unit
  | [] => return ()
  | auth :: rest => do
    let _ ← delUser me auth hash
    syncAuthDelUser me hash rest

def syncAuthAddUser (hash : String) : List Nat → Routine κ Unit
  | [] => return ()
  | auth :: rest => do
    let _ ← addUser auth hash
    syncAuthAddUser hash rest

/-- How an account edit reaches the authenticators: the user is removed under the old hash
and, if active, added under the new one. -/
def updateUser (me : Actor κ) (oldHash newHash : String) (active : Bool) (auths : List Nat) :
    Routine κ Unit := do
  syncAuthDelUser me oldHash auths
  if active then syncAuthAddUser newHash auths else return ()

/-! ### The process -/

/-- A reporter of traffic: the manager of a node, or the reporter of one trojan listener. -/
inductive Client where
  | manager (auths : List Nat) (hasDb : Bool)
  | reporter (auth : Nat)

inductive ClientMemory where
  | manager (m : Manager)
  | reporter (r : Reporter)

def ClientMemory.state : ClientMemory → State
  | .manager m => m.state
  | .reporter r => r.state

inductive ConnCall where
  /-- look up the user of a new connection -/
  | auth (auth : Nat) (hash : String)
  /-- bytes written to and read from the connection -/
  | transfer (sent recv : Int)

inductive AdminCall where
  | addUser (auth : Nat) (hash : String)
  | delUser (auth : Nat) (hash : String)
  | updateUser (oldHash newHash : String) (active : Bool) (auths : List Nat)

@[reducible] def Call : Actor κ → Type
  | .conn _ => ConnCall
  | .client _ => Unit
  | .admin _ => AdminCall
  | .embedded => Unit

/-- A connection remembers the user object it obtained, a reporter its outbox state. -/
@[reducible] def Memory : Actor κ → Type
  | .conn _ => Option Nat
  | .client _ => ClientMemory
  | .admin _ => Unit
  | .embedded => Unit

def connBody (n : Nat) : ConnCall → Option Nat → Option (Routine κ (Option Nat))
  | .auth auth hash, _ => some (mapLoad auth hash)
  | .transfer sent recv, some i => some do
    addTraffic (.conn n) i sent recv
    return some i
  | .transfer _ _, none => none

def clientBody (c : κ) : Client → ClientMemory → Option (Routine κ ClientMemory)
  | .manager auths hasDb, .manager m => some do
    let m ← m.performSync c auths hasDb
    return .manager m
  | .reporter auth, .reporter r => some do
    let (r, _) ← r.flush c auth
    return .reporter r
  | _, _ => none

def adminBody (n : Nat) : AdminCall → Routine κ Unit
  | .addUser auth hash => do
    let _ ← addUser auth hash
  | .delUser auth hash => do
    let _ ← delUser (.admin n) auth hash
  | .updateUser oldHash newHash active auths => updateUser (.admin n) oldHash newHash active auths

def body (clients : κ → Client) (embedded : List Nat) :
    (i : Actor κ) → Call i → Memory i → Option (Routine κ (Memory i))
  | .conn n, call, memory => connBody n call memory
  | .client c, _, memory => clientBody c (clients c) memory
  | .admin n, call, _ => some (adminBody n call)
  | .embedded, _, _ => some do
    let _ ← syncEmbeddedTrafficOnce embedded

def memory (clients : κ → Client) (s : World κ) : (i : Actor κ) → Memory i
  | .conn _ => none
  | .client c =>
    match clients c with
    | .manager _ _ => .manager (.start s.disk)
    | .reporter _ => .reporter (.start s.disk)
  | .admin _ => ()
  | .embedded => ()

/-- The process with its reporters and the authenticators the embedded worker reads, with or
without restarts. -/
def machine [DecidableEq κ] (clients : κ → Client) (embedded : List Nat) (restarts : Bool) :
    Machine (Actor κ) (World κ) Fate Call Memory (Op κ) Res where
  exec := exec
  body := body clients embedded
  reboot := fun s => if restarts then some s.restart else none
  memory := memory clients

theorem restart_of_reboot [DecidableEq κ] {clients : κ → Client} {embedded : List Nat}
    {restarts : Bool} {s s' : World κ}
    (kept : (machine clients embedded restarts).reboot s = some s') : s' = s.restart := by
  change (if restarts then some s.restart else none) = some s' at kept
  split at kept <;> cases kept
  rfl

/-! ### Parts of runs -/

/-- A user is added to an authenticator, and a connection authenticates as this user. -/
def joins (n : Nat) (hash : String) : List (Label (Actor κ) Call Fate) :=
  [.enter (.admin n) (.addUser n hash), .step (.admin n) {}, .step (.admin n) {}, .leave (.admin n),
    .enter (.conn n) (.auth n hash), .step (.conn n) {}, .leave (.conn n)]

/-- The connection counts a transfer. -/
def moves (n : Nat) (sent recv : Int) : List (Label (Actor κ) Call Fate) :=
  .enter (.conn n) (.transfer sent recv) ::
    (List.replicate 4 (.step (.conn n) {}) ++ [.leave (.conn n)])

end TrojanGo.Plane
