import TrojanGo.Database.Migrations

/-!
# The migration lease

Any number of processes run the list of migrations on one database, serialised by a row in a
table of locks. A process that was paused too long may go on after its lease has expired, so every
migration checks the row once more right before its commit. A crashed process is one that is never
scheduled again.
-/
namespace TrojanGo.Database.Lease

open Lib Master List

variable {δ ν ε : Type}

/-! ### Tables -/

/-- The row of the lock table that all runners compete for. -/
structure MigrationLock where
  token : String
  expiresAt : Time
  deriving DecidableEq

inductive AuditStatus where
  | started
  | applied
  | failed
  deriving DecidableEq

structure MigrationAudit (ε : Type) where
  version : Nat
  name : String
  checksum : String
  status : AuditStatus := .started
  startedAt : Time
  finishedAt : Option Time := none
  errorMessage : Option (Failure ε) := none

/-- What `runMigrations` shares with its renewal loop: the buffered channel, the context of the
transactions, and the context that ends the loop. -/
structure Session where
  token : String
  renewalErr : Bool := false
  cancelled : Bool := false
  ended : Bool := false

/-- A commit, with the row of the lock table at that moment. -/
structure Commit where
  version : Nat
  token : String
  lock : Option MigrationLock
  deriving DecidableEq

structure World (δ ε : Type) extends Tables δ where
  audits : List (MigrationAudit ε) := []
  lock : Option MigrationLock := none
  clock : Time := 0
  sessions : List Session := []
  commits : List Commit := []

/-! ### Statements -/

/-- The statement of a transaction that the database refuses. -/
inductive Stage where
  | begin
  | record
  | verify
  | commit
  deriving DecidableEq

/-- How a statement fares. One that reports a failure may have been committed nevertheless. -/
structure Fate (ν : Type) where
  reads : ν
  ok : Bool := true
  committed : Bool := false
  stage : Stage := .commit
  token : Option String := none

def Fate.refuses (fate : Fate ν) (stage : Stage) : Bool := !fate.ok && fate.stage = stage

inductive Op (δ ν ε : Type) where
  | autoMigrate
  | now
  | randomToken
  | refreshLock (now : Time) (lock : MigrationLock)
  | createLock (lock : MigrationLock)
  | openSession (token : String)
  | readApplied (version : Nat)
  | pollRenewal (session : Nat)
  | createAudit (audit : MigrationAudit ε)
  | transact (session : Nat) (token : String) (m : Migration δ ν ε)
  | finishAudit (id : Nat) (status : AuditStatus) (finishedAt : Time)
      (errorMessage : Option (Failure ε))
  | closeSession (session : Nat)
  | releaseLock (token : String)
  | renewing (session : Nat)
  | renewLock (token : String) (expiresAt : Time)
  | renewalLost (session : Nat)
  | wait (duration : Nat)

@[reducible] def Res : Op δ ν ε → Type
  | .autoMigrate | .createLock _ | .pollRenewal _ | .finishAudit _ _ _ _ | .renewLock _ _ => Bool
  | .now => Time
  | .randomToken => Option String
  | .refreshLock _ _ => Option Nat
  | .openSession _ => Nat
  | .readApplied _ => Option (Option SchemaMigration)
  | .createAudit _ => Option Nat
  | .transact _ _ _ => Except (Failure ε) Unit
  | .renewing _ => Option String
  | .closeSession _ | .releaseLock _ | .renewalLost _ | .wait _ => Unit

def World.onSession (w : World δ ε) (session : Nat) (f : Session → Session) : World δ ε :=
  { w with sessions := w.sessions.modify session f }

/-- A statement that is a transaction of its own. -/
def World.write (w : World δ ε) (fate : Fate ν) (w' : World δ ε) : World δ ε :=
  if fate.ok ∨ fate.committed then w' else w

/-- `verifyLockOwnership`. -/
def verifyLockOwnership (lock : Option MigrationLock) (token : String) (now : Time) :
    Except (Failure ε) Unit :=
  match lock with
  | none => .error .leaseMissing
  | some lock =>
    if lock.token ≠ token then .error .tokenMismatch
    else if ¬ lock.expiresAt > now then .error .leaseExpired
    else .ok ()

/-- Everything a transaction checks before its commit, and the data it would commit. -/
def World.prepare (w : World δ ε) (fate : Fate ν) (session : Nat) (token : String)
    (m : Migration δ ν ε) : Except (Failure ε) δ :=
  match m.up with
  -- a migration without a function was refused before
  | none => .error .begin
  | some up =>
    if fate.refuses .begin then .error .begin
    else
      match up fate.reads w.data with
      | .error reason => .error (.up reason)
      | .ok data =>
        if fate.refuses .record ∨ m.version ∈ w.applied.map SchemaMigration.version then .error .record
        else if (w.sessions[session]?).any Session.cancelled then .error .cancelled
        else if fate.refuses .verify then .error .verify
        else
          match verifyLockOwnership w.lock token w.clock with
          | .error reason => .error reason
          | .ok () => .ok data

variable (sha256 : String → String)

def World.commit (w : World δ ε) (token : String) (m : Migration δ ν ε) (data : δ) : World δ ε :=
  { w with
    data := data
    applied := w.applied ++ [m.record sha256]
    commits := w.commits ++ [⟨m.version, token, w.lock⟩] }

def World.transact (w : World δ ε) (fate : Fate ν) (session : Nat) (token : String)
    (m : Migration δ ν ε) : Except (Failure ε) Unit × World δ ε :=
  match w.prepare fate session token m with
  | .error reason => (.error reason, w)
  | .ok data =>
    let done := w.commit sha256 token m data
    if fate.ok then (.ok (), done) else (.error .commit, w.write fate done)

def step (fate : Fate ν) (w : World δ ε) : (op : Op δ ν ε) → Res op × World δ ε
  | .autoMigrate => (fate.ok, w)
  | .now => (w.clock, w)
  | .randomToken => (fate.token, w)
  | .refreshLock now lock =>
    if w.lock.any fun held => held.expiresAt < now then
      (if fate.ok then some 1 else none, w.write fate { w with lock := some lock })
    else (if fate.ok then some 0 else none, w)
  | .createLock lock =>
    -- the name of the row is its primary key
    if w.lock.isSome then (false, w)
    else (fate.ok, w.write fate { w with lock := some lock })
  | .openSession token =>
    (w.sessions.length, { w with sessions := w.sessions ++ [{ token := token }] })
  | .readApplied version => (if fate.ok then some (w.recorded version) else none, w)
  | .pollRenewal session =>
    ((w.sessions[session]?).any Session.renewalErr,
      w.onSession session fun s => { s with renewalErr := false })
  | .createAudit audit =>
    (if fate.ok then some w.audits.length else none,
      w.write fate { w with audits := w.audits ++ [audit] })
  | .transact session token m => w.transact sha256 fate session token m
  | .finishAudit id status finishedAt errorMessage =>
    (fate.ok, w.write fate { w with
      audits := w.audits.modify id fun audit => { audit with
        status := status, finishedAt := some finishedAt
        errorMessage := errorMessage.or audit.errorMessage } })
  | .closeSession session =>
    ((), w.onSession session fun s => { s with cancelled := true, ended := true })
  | .releaseLock token =>
    ((), w.write fate { w with lock := w.lock.filter fun held => held.token ≠ token })
  | .renewing session =>
    (((w.sessions[session]?).filter fun s => !s.ended).map Session.token, w)
  | .renewLock token expiresAt =>
    if w.lock.any fun held => held.token = token then
      (fate.ok, w.write fate { w with lock := some ⟨token, expiresAt⟩ })
    else (false, w)
  | .renewalLost session =>
    ((), w.onSession session fun s =>
      { s with renewalErr := true, cancelled := true, ended := true })
  | .wait duration => ((), { w with clock := w.clock + duration })

def exec : Prog.Exec (World δ ε) (Fate ν) (Op δ ν ε) Res :=
  fun fate w op => some (step sha256 fate w op)

/-! ### Programs -/

abbrev Runner (δ ν ε : Type) := Prog (Op δ ν ε) Res

abbrev ask (op : Op δ ν ε) : Runner δ ν ε (Res op) := Prog.ask op

def migrationLockTTL : Time := 5 * 60 * 1000000000

def acquireMigrationLock (now : Time) : Runner δ ν ε (Except (RunError ε) String) := do
  match ← ask .randomToken with
  | none => return .error .generateToken
  | some token =>
    let lock : MigrationLock := ⟨token, now + migrationLockTTL⟩
    match ← ask (.refreshLock now lock) with
    | none => return .error .refreshLock
    | some rows =>
      if rows = 1 then return .ok token
      else if ← ask (.createLock lock) then return .ok token
      else return .error .acquireLock

def finishMigrationFailure (m : Migration δ ν ε) (audit : Nat) (reason : Failure ε) :
    Runner δ ν ε (Except (RunError ε) Unit) := do
  let finishedAt ← ask .now
  if ← ask (.finishAudit audit .failed finishedAt (some reason)) then
    return .error (.failed m.version m.name reason)
  else return .error (.failureAudit m.version reason)

def runMigration (session : Nat) (token : String) (m : Migration δ ν ε) :
    Runner δ ν ε (Except (RunError ε) Unit) := do
  let startedAt ← ask .now
  let audit : MigrationAudit ε :=
    { version := m.version, name := m.name, checksum := m.checksum sha256, startedAt := startedAt }
  match ← ask (.createAudit audit) with
  | none => return .error (.createAudit m.version)
  | some audit =>
    let completedAt ← ask .now
    match ← ask (.transact session token m) with
    | .error reason => finishMigrationFailure m audit reason
    | .ok () =>
      if ← ask (.finishAudit audit .applied completedAt none) then return .ok ()
      else return .error (.successAudit m.version)

/-- The loop over the list; `previous` is the version of the migration before. -/
def runAll (session : Nat) (token : String) (previous : Nat) :
    List (Migration δ ν ε) → Runner δ ν ε (Except (RunError ε) Unit)
  | [] => return .ok ()
  | m :: ms => do
    if m.version = 0 ∨ m.name = "" ∨ m.revision = "" ∨ m.up.isNone then
      return .error (.invalidDefinition m.version m.name)
    else if previous ≥ m.version then return .error (.notIncreasing previous m.version)
    else
      match ← ask (.readApplied m.version) with
      | none => return .error (.read m.version)
      | some (some applied) =>
        if applied.name ≠ m.name ∨ applied.checksum ≠ m.checksum sha256 then
          return .error (.checksumMismatch m.version)
        else runAll session token m.version ms
      | some none =>
        if ← ask (.pollRenewal session) then return .error (.lostBefore m.version)
        else
          match ← runMigration sha256 session token m with
          | .error reason => return .error reason
          | .ok () =>
            if ← ask (.pollRenewal session) then return .error (.lostAfter m.version)
            else runAll session token m.version ms

def runMigrations (ms : List (Migration δ ν ε)) : Runner δ ν ε (Except (RunError ε) Unit) := do
  if ← ask .autoMigrate then
    let now ← ask .now
    match ← acquireMigrationLock now with
    | .error reason => return .error reason
    | .ok token =>
      let session ← ask (.openSession token)
      let outcome ← runAll sha256 session token 0 ms
      ask (.closeSession session)
      ask (.releaseLock token)
      return outcome
  else return .error .metadataTables

/-- One tick of `renewLockLoop`; after a failed renewal the loop has ended. -/
def renewTick (session : Nat) : Runner δ ν ε Unit := do
  match ← ask (.renewing session) with
  | none => return
  | some token =>
    let now ← ask .now
    if ← ask (.renewLock token (now + migrationLockTTL)) then return
    else ask (.renewalLost session)

inductive Call where
  | runMigrations
  | renewTick (session : Nat)
  | wait (duration : Nat)

def body (ms : List (Migration δ ν ε)) : Call → Runner δ ν ε Unit
  | .runMigrations => do
    let _ ← runMigrations sha256 ms
  | .renewTick session => renewTick session
  | .wait duration => ask (.wait duration)

def machine (ms : List (Migration δ ν ε)) :
    Machine Nat (World δ ε) (Fate ν) (fun _ => Call) (fun _ => Unit) (Op δ ν ε) Res where
  exec := exec sha256
  body := fun _ call _ => some (body sha256 ms call)
  -- when all processes stop, no session is left
  reboot := fun w => some { w with sessions := [] }
  memory := fun _ _ => ()

/-! ### Statements outside the transactions of migrations -/

/-- The transaction of a migration is the only statement that touches the data, the records and
the history. -/
def Op.Quiet : Op δ ν ε → Prop
  | .transact _ _ _ => False
  | _ => True

structure Same (w w' : World δ ε) : Prop where
  data : w'.data = w.data
  applied : w'.applied = w.applied
  commits : w'.commits = w.commits

variable {sha256} {w w' : World δ ε}

theorem Same.write (same : Same w w') (fate : Fate ν) :
    Same w (w.write fate w') := by
  obtain ⟨data, applied, commits⟩ := same
  constructor <;> grind [World.write]

variable {op : Op δ ν ε} {fate : Fate ν}

theorem exec_quiet (quiet : op.Quiet) {result : Res op}
    (done : exec sha256 fate w op = some (result, w')) : Same w w' := by
  cases op with
  | transact => exact quiet.elim
  | refreshLock | createLock | renewLock =>
    simp only [exec, step] at done
    split at done
    all_goals
      cases done
      first
      | exact ⟨rfl, rfl, rfl⟩
      | apply Same.write
        exact ⟨rfl, rfl, rfl⟩
  | createAudit | finishAudit | releaseLock =>
    cases done
    apply Same.write
    exact ⟨rfl, rfl, rfl⟩
  | _ =>
    cases done
    exact ⟨rfl, rfl, rfl⟩

/-! ### The transaction of a migration -/

variable {token : String}

theorem verifyLockOwnership_ok {lock : Option MigrationLock} {now : Time}
    (verified : (verifyLockOwnership lock token now : Except (Failure ε) Unit) = .ok ()) :
    ∃ held, lock = some held ∧ held.token = token ∧ now < held.expiresAt := by
  unfold verifyLockOwnership at verified
  split at verified
  · cases verified
  next held => grind

variable {session : Nat} {m : Migration δ ν ε}

theorem prepare_ok {data : δ} (prepared : w.prepare fate session token m = .ok data) :
    (∃ up, m.up = some up ∧ up fate.reads w.data = .ok data) ∧
      m.version ∉ w.applied.map SchemaMigration.version ∧
      ∃ held, w.lock = some held ∧ held.token = token := by
  unfold World.prepare at prepared
  split at prepared
  · cases prepared
  next up found =>
    split at prepared
    · cases prepared
    split at prepared
    · cases prepared
    next data' ran =>
      split at prepared
      · cases prepared
      next fresh =>
        split at prepared
        · cases prepared
        split at prepared
        · cases prepared
        split at prepared
        · cases prepared
        next verified =>
          cases prepared
          obtain ⟨held, row, token, -⟩ := verifyLockOwnership_ok verified
          exact ⟨⟨up, found, ran⟩, (not_or.mp fresh).2, held, row, token⟩

variable {result : Except (Failure ε) Unit} {done : List (Migration δ ν ε)}

/-- A migration is applied as a whole, under the token of its runner, or not at all. -/
theorem transact_cases (ran : w.transact sha256 fate session token m = (result, w')) :
    (w' = w ∧ result ≠ .ok ()) ∨
      ((∃ up reads, m.up = some up ∧ up reads w.data = .ok w'.data) ∧
        m.version ∉ w.applied.map SchemaMigration.version ∧
        (∃ held, w.lock = some held ∧ held.token = token) ∧
        w'.applied = w.applied ++ [m.record sha256] ∧
        w'.commits = w.commits ++ [⟨m.version, token, w.lock⟩]) := by
  unfold World.transact at ran
  split at ran
  · cases ran
    exact .inl ⟨rfl, by simp⟩
  next data prepared =>
    obtain ⟨⟨up, found, applied⟩, fresh, held⟩ := prepare_ok prepared
    unfold World.write at ran
    split at ran
    · cases ran
      exact .inr ⟨⟨up, _, found, applied⟩, fresh, held, rfl, rfl⟩
    · split at ran
      · cases ran
        exact .inr ⟨⟨up, _, found, applied⟩, fresh, held, rfl, rfl⟩
      · cases ran
        exact .inl ⟨rfl, by simp⟩

/-! ### A runner on its own -/

section Alone

variable (sha256) {up : ν → δ → Except ε δ}

/-- The session holds the lease, and its renewal loop has reported nothing. -/
structure Leads (session : Nat) (token : String) (w : World δ ε) : Prop where
  lease : verifyLockOwnership w.lock token w.clock = (.ok () : Except (Failure ε) Unit)
  renewing : (w.sessions[session]?).any Session.renewalErr = false
  running : (w.sessions[session]?).any Session.cancelled = false

/-- A transaction of a runner that leads fails only if the migration itself does. -/
theorem transact_alone (ok : fate.ok = true) (leads : Leads session token w)
    (runs : m.up = some up) (fresh : w.recorded m.version = none) :
    w.transact sha256 fate session token m =
      match up fate.reads w.data with
      | .error reason => (.error (.up reason), w)
      | .ok data => (.ok (), w.commit sha256 token m data) := by
  obtain ⟨lease, -, running⟩ := leads
  have new : m.version ∉ w.applied.map SchemaMigration.version := by
    grind [Tables.recorded]
  cases ran : up fate.reads w.data <;>
    simp [World.transact, World.prepare, runs, Fate.refuses, ok, ran, new, running, lease]

/-- A migration leaves the lease as it is, and the tables as the migration makes them. -/
theorem runMigration_alone (ok : fate.ok = true) (leads : Leads session token w)
    (runs : m.up = some up) (fresh : w.recorded m.version = none) :
    ∃ done w', (runMigration sha256 session token m).eval (step sha256 fate) w = (done, w') ∧
      Leads session token w' ∧
      done.map (fun _ => w'.toTables) =
        Database.runMigration sha256 fate.reads m up w.toTables := by
  have now : ∀ w : World δ ε, step sha256 fate w .now = (w.clock, w) := fun _ => rfl
  have created : ∀ audit, step sha256 fate w (.createAudit audit) =
      (some w.audits.length, { w with audits := w.audits ++ [audit] }) := by
    simp [step, World.write, ok]
  have finished : ∀ (w : World δ ε) id status finishedAt errorMessage, ∃ audits,
      step sha256 fate w (.finishAudit id status finishedAt errorMessage) =
        (true, { w with audits := audits }) := by
    simp [step, World.write, ok]
  have transacted := fun audits => transact_alone (w := { w with audits := audits }) sha256 ok
    ⟨leads.lease, leads.renewing, leads.running⟩ runs fresh
  generalize evals : (runMigration sha256 session token m).eval (step sha256 fate) w = ended
  refine ⟨ended.1, ended.2, rfl, ?_⟩
  rw [runMigration, Prog.eval_step (now w), Prog.eval_step (created _)] at evals
  dsimp only at evals
  generalize w.audits ++ [_] = audits at evals
  rw [Prog.eval_step (now _), Prog.eval_step (transacted _)] at evals
  unfold Database.runMigration
  cases ran : up fate.reads w.data with
  | error reason =>
    simp only [ran] at evals
    obtain ⟨_, recorded⟩ := finished { w with audits := audits } w.audits.length .failed w.clock
      (some (.up reason))
    rw [finishMigrationFailure, Prog.eval_step (now _), Prog.eval_step recorded] at evals
    cases evals
    exact ⟨⟨leads.lease, leads.renewing, leads.running⟩, rfl⟩
  | ok data =>
    simp only [ran] at evals
    obtain ⟨_, recorded⟩ := finished ({ w with audits := audits }.commit sha256 token m data)
      w.audits.length .applied w.clock none
    rw [Prog.eval_step recorded] at evals
    cases evals
    exact ⟨⟨leads.lease, leads.renewing, leads.running⟩, rfl⟩

theorem Leads.polled (leads : Leads session token w) :
    Leads session token (w.onSession session fun s => { s with renewalErr := false }) := by
  obtain ⟨lease, renewing, running⟩ := leads
  refine ⟨lease, ?_, ?_⟩ <;>
    cases found : w.sessions[session]? <;>
    simp_all [World.onSession]

theorem runAll_alone (ok : fate.ok = true) (previous : Nat) (ms : List (Migration δ ν ε))
    (leads : Leads session token w) :
    ∃ done w', (runAll sha256 session token previous ms).eval (step sha256 fate) w = (done, w') ∧
      done.map (fun _ => w'.toTables) =
        Database.runMigrations sha256 fate.reads previous ms w.toTables := by
  induction ms generalizing previous w with
  | nil => exact ⟨_, _, rfl, rfl⟩
  | cons m ms ih =>
    cases runs : m.up with
    | none =>
      refine ⟨_, _, rfl, ?_⟩
      simp [runAll, Database.runMigrations, runs, Except.map]
    | some up =>
      rw [Database.runMigrations, runAll]
      simp only [runs, Option.isNone_some, Bool.false_eq_true, or_false]
      split
      · exact ⟨_, _, rfl, rfl⟩
      split
      · exact ⟨_, _, rfl, rfl⟩
      have read : step sha256 fate w (.readApplied m.version) = (some (w.recorded m.version), w) := by
        simp [step, ok]
      rw [Prog.eval_step read]
      cases found : w.recorded m.version with
      | some applied =>
        simp only
        split
        · exact ⟨_, _, rfl, rfl⟩
        · exact ih _ leads
      | none =>
        have polled : ∀ w : World δ ε, Leads session token w →
            step sha256 fate w (.pollRenewal session) =
              (false, w.onSession session fun s => { s with renewalErr := false }) := by
          intro w leads
          simp [step, leads.renewing]
        simp only
        rw [Prog.eval_step (polled w leads)]
        obtain ⟨done, w', ran, leads', tables⟩ :=
          runMigration_alone sha256 ok leads.polled runs found
        have same : Database.runMigration sha256 fate.reads m up w.toTables =
            done.map fun _ => w'.toTables := tables.symm
        simp only [Bool.false_eq_true, if_false]
        rw [Prog.eval_bind, ran, same]
        cases done with
        | error reason => exact ⟨_, _, rfl, rfl⟩
        | ok =>
          simp only [Except.map]
          rw [Prog.eval_step (polled w' leads')]
          exact ih _ leads'.polled

/-- The lock can be taken. -/
def Takeable (w : World δ ε) : Prop := ∀ held, w.lock = some held → held.expiresAt < w.clock

theorem acquireMigrationLock_alone (ok : fate.ok = true) (drawn : fate.token = some token)
    (free : Takeable w) :
    (acquireMigrationLock w.clock : Runner δ ν ε _).eval (step sha256 fate) w =
      (.ok token, { w with lock := some ⟨token, w.clock + migrationLockTTL⟩ }) := by
  have random : step sha256 fate w .randomToken = (some token, w) := by simp [step, drawn]
  rw [acquireMigrationLock, Prog.eval_step random]
  cases row : w.lock with
  | none =>
    have nothing : ∀ lock, step sha256 fate w (.refreshLock w.clock lock) = (some 0, w) := by
      simp [step, row, ok]
    have created : ∀ lock, step sha256 fate w (.createLock lock) =
        (true, { w with lock := some lock }) := by
      simp [step, row, ok, World.write]
    dsimp only
    rw [Prog.eval_step (nothing _)]
    exact Prog.eval_step (created _)
  | some held =>
    have taken : ∀ lock, step sha256 fate w (.refreshLock w.clock lock) =
        (some 1, { w with lock := some lock }) := by
      simp [step, row, ok, World.write, free held row]
    exact Prog.eval_step (taken _)

theorem runMigrations_alone (ms : List (Migration δ ν ε)) (w : World δ ε) (fate : Fate ν)
    (ok : fate.ok = true) (drawn : fate.token.isSome) (free : Takeable w) :
    ∃ count done w', (runMigrations sha256 ms).run (exec sha256) (replicate count fate) w =
        (.returned done, w') ∧
      done.map (fun _ => w'.toTables) =
        Database.runMigrations sha256 fate.reads 0 ms w.toTables := by
  obtain ⟨count, ran⟩ := Prog.run_eval (step sha256) fate (runMigrations sha256 ms) w
  refine ⟨count, _, _, ran, ?_⟩
  obtain ⟨token, drawn⟩ := Option.isSome_iff_exists.mp drawn
  have prepared : step sha256 fate w .autoMigrate = (true, w) := by simp [step, ok]
  have opened : ∀ w : World δ ε, step sha256 fate w (.openSession token) =
    (w.sessions.length, { w with sessions := w.sessions ++ [{ token := token }] }) := fun _ => rfl
  have leads : Leads w.sessions.length token { w with
      lock := some ⟨token, w.clock + migrationLockTTL⟩
      sessions := w.sessions ++ [{ token := token }] } :=
    ⟨by simp [verifyLockOwnership, migrationLockTTL], by simp, by simp⟩
  obtain ⟨done, w', evals, tables⟩ := runAll_alone sha256 ok 0 ms leads
  rw [runMigrations, Prog.eval_step prepared]
  simp only [if_true]
  rw [Prog.eval_step (rfl : step sha256 fate w .now = (w.clock, w)), Prog.eval_bind,
    acquireMigrationLock_alone sha256 ok drawn free]
  dsimp only
  rw [Prog.eval_step (opened _), Prog.eval_bind, evals]
  -- closing the session and releasing the lock leave the tables
  show done.map (fun _ => (World.write _ fate _).toTables) = _
  rw [World.write, if_pos (.inl ok)]
  exact tables

end Alone

/-! ### What holds at every moment -/

/-- The data after the migrations were applied to it one after another. -/
def Chain : List (Migration δ ν ε) → δ → δ → Prop
  | [], data, data' => data' = data
  | m :: ms, data, data' =>
    ∃ up reads mid, m.up = some up ∧ up reads data = .ok mid ∧ Chain ms mid data'

theorem Chain.snoc {ms : List (Migration δ ν ε)} {start data data' : δ}
    (chain : Chain ms start data) {up : ν → δ → Except ε δ} {reads : ν} (found : m.up = some up)
    (ran : up reads data = .ok data') : Chain (ms ++ [m]) start data' := by
  induction ms generalizing start with
  | nil =>
    cases chain
    exact ⟨up, reads, data', found, ran, rfl⟩
  | cons first ms ih =>
    obtain ⟨up', reads', mid, found', ran', rest⟩ := chain
    exact ⟨up', reads', mid, found', ran', ih rest⟩

variable (sha256) (ms before : List (Migration δ ν ε)) (start : δ)

/-- After the migrations `before` were there at the start, `later` have been applied. -/
structure Progress (w : World δ ε) (later : List (Migration δ ν ε)) : Prop where
  first : before ++ later <+: ms
  distinct : ((before ++ later).map Migration.version).Nodup
  applied : w.applied = (before ++ later).map (Migration.record sha256)
  data : Chain later start w.data
  commits : w.commits.map Commit.version = later.map Migration.version
  held : ∀ commit ∈ w.commits, ∃ lock, commit.lock = some lock ∧ lock.token = commit.token

/-- A runner has found or made the records of these migrations. -/
def Done (done : List (Migration δ ν ε)) (w : World δ ε) : Prop :=
  ∀ m ∈ done, m.record sha256 ∈ w.applied

/-- Records are only added; a thread knows nothing beyond that. -/
def protocol : (machine (ε := ε) (ν := ν) sha256 ms).Protocol where
  admits _ _ := True
  inv w := ∃ later, Progress sha256 ms before start w later
  rely _ w w' := w.applied ⊆ w'.applied
  guar _ w w' := w.applied ⊆ w'.applied
  knows _ _ _ := True

abbrev contract : Prog.Contract (World δ ε) (Op δ ν ε) := (protocol sha256 ms before start).contract 0

variable {sha256 ms before start} {later rest : List (Migration δ ν ε)}

section Progress

variable (progress : Progress sha256 ms before start w later)

include progress

theorem Progress.same (same : Same w w') : Progress sha256 ms before start w' later := by
  obtain ⟨data, applied, commits⟩ := same
  obtain ⟨first, distinct, recorded, chain, versions, held⟩ := progress
  exact ⟨first, distinct, applied ▸ recorded, data ▸ chain, commits ▸ versions, commits ▸ held⟩

variable (split : ms = done ++ m :: rest) (passed : Done sha256 done w)

include split passed

theorem Progress.caught_up (distinct : (done.map Migration.version).Nodup)
    (fresh : m.version ∉ w.applied.map SchemaMigration.version) : before ++ later = done := by
  have first := progress.first
  have inside : done <+: ms := split ▸ prefix_append _ _
  rcases prefix_or_prefix_of_prefix first inside with behind | ahead
  · obtain ⟨missing, rfl⟩ := behind
    cases missing with
    | nil => simp
    | cons x missing =>
      -- the runner has seen a record of `x`, but nothing with this version is recorded
      have seen := passed x (by simp)
      rw [progress.applied] at seen
      obtain ⟨y, mem, same⟩ := mem_map.mp seen
      have version : y.version = x.version := congrArg SchemaMigration.version same
      rw [map_append, map_cons] at distinct
      have apart := disjoint_of_nodup_append distinct
      exact (apart (mem_map_of_mem mem) (by simp [version])).elim
  · obtain ⟨extra, more⟩ := ahead
    cases extra with
    | nil => simpa using more.symm
    | cons x extra =>
      -- the next migration is already recorded
      rw [← more, split, prefix_append_right_inj, cons_prefix_cons] at first
      refine (fresh ?_).elim
      rw [progress.applied, ← more, first.1]
      simp [Migration.record]

theorem Progress.transact (distinct : ((done ++ [m]).map Migration.version).Nodup)
    (ran : w.transact sha256 fate session token m = (result, w')) :
    (∃ later', Progress sha256 ms before start w' later') ∧ w.applied ⊆ w'.applied ∧
      (result = .ok () → Done sha256 (done ++ [m]) w') := by
  rcases transact_cases ran with ⟨rfl, failed⟩ |
    ⟨⟨up, reads, found, made⟩, fresh, ⟨lock, row, owned⟩, applied, commits⟩
  · exact ⟨⟨later, progress⟩, List.Subset.refl _, fun ok => absurd ok failed⟩
  -- committed, so no record of this version was there: the runner is not behind the others
  have own : (done.map Migration.version).Nodup := by
    rw [map_append] at distinct
    exact distinct.of_append_left
  have reached := progress.caught_up split passed own fresh
  have grown : w.applied ⊆ w'.applied := applied ▸ subset_append_left _ _
  have held := progress.held
  refine ⟨⟨later ++ [m], ?_, ?_, ?_, progress.data.snoc found made, ?_, by grind⟩, grown, ?_⟩
  · rw [← append_assoc, reached, split]
    simp
  · rwa [← append_assoc, reached]
  · rw [applied, progress.applied]
    simp
  · rw [commits, map_append, map_append, progress.commits]
    simp
  · intro _ x mem
    rcases mem_append.mp mem with earlier | here
    · exact grown (passed x earlier)
    · rw [mem_singleton.mp here, applied]
      simp

end Progress

/-! ### Every runner keeps to it -/

theorem contract_lawful : (contract sha256 ms before start).Lawful where
  refl _ := List.Subset.refl _
  trans _ _ _ first second := List.Subset.trans first second

theorem stable_done (done : List (Migration δ ν ε)) :
    (contract sha256 ms before start).Stable (Done sha256 done) :=
  fun _ _ grown _ passed m mem => grown (passed m mem)

section Programs

variable {α : Type}

/-- One statement outside the transactions of migrations. -/
theorem keeps_quiet (quiet : op.Quiet) {result : Res op}
    (executed : exec sha256 fate w op = some (result, w'))
    (inv : (contract sha256 ms before start).inv w) (passed : Done sha256 done w) :
    (contract sha256 ms before start).inv w' ∧ (contract sha256 ms before start).guar w w' ∧
      Done sha256 done w' := by
  obtain ⟨later, progress⟩ := inv
  have same := exec_quiet quiet executed
  refine ⟨⟨later, progress.same same⟩, ?_, ?_⟩
  · show w.applied ⊆ w'.applied
    rw [same.applied]
    exact List.Subset.refl _
  · intro m mem
    rw [same.applied]
    exact passed m mem

theorem none_passed : Done sha256 ([] : List (Migration δ ν ε)) w := by
  simp [Done]

theorem wp_quietly {p : Runner δ ν ε α} (only : p.Only Op.Quiet) (passed : Done sha256 done w) :
    p.wp (exec sha256) (contract sha256 ms before start) (fun _ => Done sha256 done) w :=
  Prog.wp_only only (stable_done done) passed
    fun _ _ inv passed _ quiet _ _ _ executed => keeps_quiet quiet executed inv passed

variable {post : α → World δ ε → Prop}

theorem wp_quiet {next : Res op → Runner δ ν ε α} (quiet : op.Quiet) (passed : Done sha256 done w)
    (rest : ∀ result w', Done sha256 done w' →
      (next result).wp (exec sha256) (contract sha256 ms before start) post w') :
    (ask op >>= next).wp (exec sha256) (contract sha256 ms before start) post w := by
  refine Prog.wp_op (stable_done done) passed ?_
  intro w inv passed _ fate result w' executed
  obtain ⟨inv', grown, passed'⟩ := keeps_quiet quiet executed inv passed
  exact ⟨inv', grown, rest result w' passed'⟩

theorem wp_end {value : α} (passed : Done sha256 done w)
    (holds : ∀ w', Done sha256 done w' → post value w') :
    (pure value : Runner δ ν ε α).wp (exec sha256) (contract sha256 ms before start) post w :=
  Prog.wp_return (stable_done done) passed fun w' _ passed' => holds w' passed'

theorem wp_stop {value : α} : (pure value : Runner δ ν ε α).wp (exec sha256)
    (contract sha256 ms before start) (fun _ _ => True) w :=
  wp_end none_passed fun _ _ => trivial

theorem acquireMigrationLock_only (now : Time) :
    (acquireMigrationLock now : Runner δ ν ε (Except (RunError ε) String)).Only Op.Quiet := by
  refine ⟨trivial, fun token => ?_⟩
  cases token with
  | none => trivial
  | some token =>
    refine ⟨trivial, fun rows => ?_⟩
    cases rows with
    | none => trivial
    | some rows =>
      show Prog.Only _ (if rows = 1 then _ else _)
      split
      · trivial
      · exact ⟨trivial, fun created => by cases created <;> trivial⟩

theorem finishMigrationFailure_wp (m : Migration δ ν ε) (audit : Nat) (reason : Failure ε)
    (passed : Done sha256 done w) :
    (finishMigrationFailure m audit reason).wp (exec sha256) (contract sha256 ms before start)
      (fun result _ => result ≠ .ok ()) w := by
  refine wp_quiet trivial passed fun finishedAt w passed => ?_
  refine wp_quiet trivial passed fun recorded w passed => ?_
  cases recorded <;> exact wp_end passed fun _ _ => by simp

theorem renewTick_only (session : Nat) :
    (renewTick session : Runner δ ν ε Unit).Only Op.Quiet := by
  grind [renewTick, Op.Quiet, Prog.Only]

/-- A migration that is reported as applied is recorded. -/
theorem runMigration_wp (split : ms = done ++ m :: rest)
    (distinct : ((done ++ [m]).map Migration.version).Nodup) (session : Nat) (token : String)
    (passed : Done sha256 done w) :
    (runMigration sha256 session token m).wp (exec sha256) (contract sha256 ms before start)
      (fun result w' => result = .ok () → Done sha256 (done ++ [m]) w') w := by
  refine wp_quiet trivial passed fun startedAt w passed => ?_
  refine wp_quiet trivial passed fun audit w passed => ?_
  cases audit with
  | none => exact wp_end passed fun _ _ => nofun
  | some audit =>
    refine wp_quiet trivial passed fun completedAt w passed => ?_
    refine Prog.wp_op (stable_done done) passed ?_
    rintro w ⟨later, progress⟩ passed _ fate result w' executed
    obtain ⟨inv, grown, applied⟩ := progress.transact split passed distinct
      (Option.some.inj executed)
    refine ⟨inv, grown, ?_⟩
    cases result with
    | error reason =>
      refine Prog.wp_mono ?_ (finishMigrationFailure_wp m audit reason
        fun x mem => grown (passed x mem))
      exact fun _ _ _ failed ok => absurd ok failed
    | ok =>
      refine wp_quiet trivial (applied rfl) fun recorded w passed => ?_
      cases recorded with
      | true => exact wp_end passed fun _ passed _ => passed
      | false => exact wp_end passed fun _ _ => nofun

/-- The loop has been through `done`, whose versions go up to `previous`. -/
theorem runAll_wp {previous : Nat} (split : ms = done ++ rest)
    (distinct : (done.map Migration.version).Nodup) (bound : ∀ m ∈ done, m.version ≤ previous)
    (session : Nat) (token : String) (passed : Done sha256 done w) :
    (runAll sha256 session token previous rest).wp (exec sha256)
      (contract sha256 ms before start) (fun _ _ => True) w := by
  induction rest generalizing done previous w with
  | nil => exact wp_stop
  | cons m rest ih =>
    unfold runAll
    split
    · exact wp_stop
    split
    · exact wp_stop
    next increasing =>
    -- the loop has checked that versions increase
    have distinct' : ((done ++ [m]).map Migration.version).Nodup := by grind
    have bound' : ∀ x ∈ done ++ [m], x.version ≤ m.version := by grind
    -- the rest of the list, once this migration is recorded
    have onward : ∀ w, Done sha256 (done ++ [m]) w →
        (runAll sha256 session token m.version rest).wp (exec sha256)
          (contract sha256 ms before start) (fun _ _ => True) w :=
      fun w passed => ih (by simp [split]) distinct' bound' passed
    refine Prog.wp_op (stable_done done) passed ?_
    intro w inv passed _ fate result w' executed
    have quiet : Op.Quiet (.readApplied m.version : Op δ ν ε) := trivial
    obtain ⟨inv', grown, passed'⟩ := keeps_quiet quiet executed inv passed
    refine ⟨inv', grown, ?_⟩
    cases result with
    | none => exact wp_stop
    | some row =>
      cases row with
      | some applied =>
        show Prog.wp _ _ (if _ then _ else _) _ _
        split
        · exact wp_stop
        next published =>
          obtain ⟨name, checksum⟩ := not_or.mp published
          obtain ⟨read, rfl⟩ := Prod.mk.inj (Option.some.inj executed)
          obtain ⟨mem, version⟩ : applied ∈ w.applied ∧ applied.version = m.version := by
            grind [Tables.recorded]
          -- the record that was found is the one this runner would have made
          have record : m.record sha256 = applied := by
            rw [Migration.record, ← not_not.mp name, ← not_not.mp checksum, ← version]
          exact onward w (by grind [Done])
      | none =>
        refine wp_quiet trivial passed' fun lost w passed => ?_
        cases lost with
        | true => exact wp_stop
        | false =>
          refine Prog.wp_seq contract_lawful (runMigration_wp split distinct' session token passed) ?_
          intro outcome w _ recorded
          cases outcome with
          | error reason => exact wp_stop
          | ok =>
            refine wp_quiet trivial (recorded rfl) fun lost w passed => ?_
            cases lost with
            | true => exact wp_stop
            | false => exact onward w passed

theorem runMigrations_wp (w : World δ ε) :
    (runMigrations sha256 ms).wp (exec sha256) (contract sha256 ms before start)
      (fun _ _ => True) w := by
  have passed : ∀ w : World δ ε, Done sha256 ([] : List (Migration δ ν ε)) w := fun _ => none_passed
  refine wp_quiet trivial (passed w) fun created w _ => ?_
  cases created with
  | false => exact wp_stop
  | true =>
    refine wp_quiet trivial (passed w) fun now w _ => ?_
    refine Prog.wp_seq contract_lawful
      (wp_quietly (acquireMigrationLock_only now) (passed w)) fun acquired w _ _ => ?_
    cases acquired with
    | error reason => exact wp_stop
    | ok token =>
      refine wp_quiet trivial (passed w) fun session w _ => ?_
      refine Prog.wp_seq contract_lawful (runAll_wp (nil_append ms).symm nodup_nil
        (by simp) session token (passed w)) fun outcome w _ _ => ?_
      refine wp_quiet trivial (passed w) fun _ w _ => ?_
      refine wp_quiet trivial (passed w) fun _ w _ => ?_
      exact wp_stop

end Programs

theorem protocol_sound : (protocol sha256 ms before start).Sound where
  lawful _ := contract_lawful
  stable _ _ _ _ _ _ _ := trivial
  compatible _ _ _ _ _ grown := grown
  body _ call _ p w found _ := by
    cases found
    have passed : Done sha256 ([] : List (Migration δ ν ε)) w := none_passed
    cases call with
    | runMigrations =>
      exact Prog.wp_seq contract_lawful (runMigrations_wp w) fun _ _ _ _ => wp_stop
    | renewTick session =>
      exact Prog.wp_mono (fun _ _ _ _ => trivial) (wp_quietly (renewTick_only session) passed)
    | wait duration =>
      exact Prog.wp_mono (fun _ _ _ _ => trivial)
        (wp_quietly (.ask (by trivial)) passed)
  boot w w' inv kept := by
    obtain ⟨later, progress⟩ := inv
    cases kept
    exact ⟨⟨later, progress.same ⟨rfl, rfl, rfl⟩⟩, fun _ => trivial⟩

/-- At every moment of every run of any number of processes: the recorded versions are the
first ones of the list, without repetition; the data is what the migrations recorded since the
start made of it; and each of them was committed while the lock row held the token of its
runner. -/
theorem migrations_are_serialized (sha256 : String → String) (ms before : List (Migration δ ν ε))
    (w : World δ ε) (first : before <+: ms) (distinct : (before.map Migration.version).Nodup)
    (recorded : w.applied = before.map (Migration.record sha256)) (fresh : w.commits = [])
    (labels : (machine sha256 ms).Labels) (c : (machine sha256 ms).State)
    (ran : (machine sha256 ms).runFrom w labels = some c) :
    ∃ later, before ++ later <+: ms ∧
      c.shared.applied = (before ++ later).map (Migration.record sha256) ∧
      (c.shared.applied.map SchemaMigration.version).Nodup ∧
      Chain later w.data c.shared.data ∧
      c.shared.commits.map Commit.version = later.map Migration.version ∧
      ∀ commit ∈ c.shared.commits, ∃ lock, commit.lock = some lock ∧ lock.token = commit.token := by
  have progress : Progress sha256 ms before w.data w [] := by
    constructor
    · simpa using first
    · simpa using distinct
    · simpa using recorded
    · rfl
    · simp [fresh]
    · simp [fresh]
  have good : (protocol sha256 ms before w.data).Good ((machine sha256 ms).boot w) :=
    ⟨⟨[], progress⟩, fun _ => trivial⟩
  obtain ⟨later, first, distinct, applied, data, commits, held⟩ :=
    (good.run protocol_sound (Machine.runMeets_of_admits (fun _ _ => trivial) _ labels) ran).inv
  refine ⟨later, first, applied, ?_, data, commits, held⟩
  rw [applied, map_map]
  exact distinct

namespace Sample

def append (version : Nat) : Migration (List Nat) Unit Unit where
  version := version
  name := "append"
  revision := "one"
  up := some fun _ data => .ok (data ++ [version])

def steps (thread count : Nat) : List (Label Nat (fun _ => Call) (Fate Unit)) :=
  List.replicate count (.step thread { reads := () })

def taking (thread : Nat) (token : String) : List (Label Nat (fun _ => Call) (Fate Unit)) :=
  [.enter thread .runMigrations] ++ steps thread 2 ++
    [.step thread { reads := (), token := some token }]

/-- A runner takes the lease and sleeps over it. Another one takes it over, the first one comes
back to its transaction, and the second one applies the first migration of the list. -/
def takeover : List (Label Nat (fun _ => Call) (Fate Unit)) :=
  taking 0 "a" ++ steps 0 8 ++ [.enter 2 (.wait 360000000000)] ++ steps 2 1 ++
    taking 1 "b" ++ steps 1 2 ++ steps 0 1 ++ steps 1 6

end Sample

theorem takeover_is_serialized :
    ∃ c, (machine id [Sample.append 1, Sample.append 2]).runFrom { data := [] } Sample.takeover =
      some c ∧
      (c.shared.data = [1] ∧ c.shared.commits = [⟨1, "b", some ⟨"b", 660000000000⟩⟩]) ∧
      ∃ later, [] ++ later <+: [Sample.append 1, Sample.append 2] ∧
        c.shared.applied = ([] ++ later).map (Migration.record id) ∧
        (c.shared.applied.map SchemaMigration.version).Nodup ∧
        Chain later [] c.shared.data ∧
        c.shared.commits.map Commit.version = later.map Migration.version ∧
        ∀ commit ∈ c.shared.commits, ∃ lock,
          commit.lock = some lock ∧ lock.token = commit.token := by
  refine Machine.run_checked_and (by decide +kernel) fun c ran => ?_
  exact migrations_are_serialized id _ [] _ nil_prefix nodup_nil rfl rfl Sample.takeover c
    ran

end TrojanGo.Database.Lease
