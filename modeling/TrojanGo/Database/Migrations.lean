import TrojanGo.Database.ClashRules
import TrojanGo.Database.Users
import TrojanGo.Lib.Rewrites
import TrojanGo.Nodes.Handlers

/-!
# Data migrations

`runMigrations` is what a runner does that holds the lease all along and whose statements all
succeed. It is described by what has to hold of the tables so that a list of migrations succeeds
and leaves a given property, migration by migration.
-/
namespace TrojanGo.Database

open Lib Master

variable {δ ν ε : Type}

/-! ### Migrations of any data -/

structure SchemaMigration where
  version : Nat
  name : String
  checksum : String
  deriving DecidableEq

/-- A migration; one without a function cannot be run. -/
structure Migration (δ ν ε : Type) where
  version : Nat
  name : String
  revision : String
  up : Option (ν → δ → Except ε δ)

variable (sha256 : String → String)

def Migration.checksum (m : Migration δ ν ε) : String :=
  sha256 (toString m.version ++ ":" ++ m.name ++ ":" ++ m.revision)

def Migration.record (m : Migration δ ν ε) : SchemaMigration :=
  ⟨m.version, m.name, m.checksum sha256⟩

/-- The data, and the records of the migrations it has been through. -/
structure Tables (δ : Type) where
  data : δ
  applied : List SchemaMigration := []

/-- The record of a version. -/
def Tables.recorded (t : Tables δ) (version : Nat) : Option SchemaMigration :=
  t.applied.find? fun r => r.version = version

/-- Why a migration was not applied. -/
inductive Failure (ε : Type) where
  | begin
  | up (reason : ε)
  | record
  | cancelled
  | leaseMissing
  | tokenMismatch
  | leaseExpired
  | verify
  | commit
  deriving DecidableEq

inductive RunError (ε : Type) where
  | metadataTables
  | generateToken
  | refreshLock
  | acquireLock
  | invalidDefinition (version : Nat) (name : String)
  | notIncreasing (previous version : Nat)
  | read (version : Nat)
  | checksumMismatch (version : Nat)
  | lostBefore (version : Nat)
  | lostAfter (version : Nat)
  | createAudit (version : Nat)
  | failed (version : Nat) (name : String) (reason : Failure ε)
  | failureAudit (version : Nat) (reason : Failure ε)
  | successAudit (version : Nat)

/-- The data change and the record of the migration are one transaction. -/
def runMigration (reads : ν) (m : Migration δ ν ε) (up : ν → δ → Except ε δ) (t : Tables δ) :
    Except (RunError ε) (Tables δ) :=
  match up reads t.data with
  | .error reason => .error (.failed m.version m.name (.up reason))
  | .ok data => .ok ⟨data, t.applied ++ [m.record sha256]⟩

def runMigrations (reads : ν) (previous : Nat) :
    List (Migration δ ν ε) → Tables δ → Except (RunError ε) (Tables δ)
  | [], t => .ok t
  | m :: ms, t =>
    match m.up with
    | none => .error (.invalidDefinition m.version m.name)
    | some up =>
      if m.version = 0 ∨ m.name = "" ∨ m.revision = "" then
        .error (.invalidDefinition m.version m.name)
      else if previous ≥ m.version then .error (.notIncreasing previous m.version)
      else
        match t.recorded m.version with
        | some applied =>
          if applied.name ≠ m.name ∨ applied.checksum ≠ m.checksum sha256 then
            .error (.checksumMismatch m.version)
          else runMigrations reads m.version ms t
        | none =>
          match runMigration sha256 reads m up t with
          | .error reason => .error reason
          | .ok t' => runMigrations reads m.version ms t'

/-! ### Credentials -/

structure Store where
  db : Db := {}
  configs : Table String String := {}

/-- The record that a migration could not encrypt. -/
inductive UpError where
  | user (id : Nat)
  | node (id : Nat)
  deriving DecidableEq

/-- A statement of a migration on the tables of users and nodes. -/
def onDb {α : Type} (reason : UpError) (tx : Tx α) : StateT Store (Except UpError) α := fun store =>
  match tx store.db with
  | .error _ => .error reason
  | .ok (value, db) => .ok (value, { store with db := db })

theorem onDb_ok {α : Type} {reason : UpError} {tx : Tx α} {store store' : Store} {value : α}
    (ran : onDb reason tx store = .ok (value, store')) :
    ∃ db, tx store.db = .ok (value, db) ∧ store' = { store with db := db } := by
  grind [onDb]

/-- The unique indexes of the node table; an absent fingerprint is the empty text. -/
def nodesClash (a b : Node) : Prop :=
  a.secret = b.secret ∨ a.secretHash = b.secretHash ∧ a.secretHash ≠ ""

instance  (a b : Node) : Decidable (nodesClash a b) := inferInstanceAs (Decidable (_ ∨ _))

variable (crypto : Crypto)

/-- `SetNodeSecret`. -/
def setNodeSecret (nonces : Nat → String) (now : Time) (id : Nat) (secret : String) :
    Tx Unit := fun db =>
  let ciphertext := encryptCredential crypto.cipher (nodeSecretPurpose id) (nonces id) secret
  let nodes := Nodes.onNode id (Nodes.withSecret crypto.fingerprint secret ciphertext now) db.nodes
  if (id ≠ 0 ∧ (secret = "" ∨ crypto.keyed)) ∧ nodes.Pairwise (fun a b => ¬ nodesClash a b) then
    .ok ((), { db with nodes := nodes })
  else .error .database

/-- The password is only there in plaintext. -/
def plaintextUser (u : User) : Bool := u.password ≠ "" ∧ u.passwordCiphertext = ""

def plaintextNode (node : Node) : Bool := node.secret ≠ "" ∧ node.secretCiphertext = ""

def encryptUsers (nonces : Nat → String) (users : List User) : StateT Store (Except UpError) Unit :=
  forM users fun u => onDb (.user u.id) (setUserPassword crypto nonces u.id u.password)

def encryptNodes (nonces : Nat → String) (now : Time) (nodes : List Node) :
    StateT Store (Except UpError) Unit :=
  forM nodes fun node => onDb (.node node.id) (setNodeSecret crypto nonces now node.id node.secret)

def encryptRecoverableCredentials (nonces : Nat → String) (now : Time) :
    StateT Store (Except UpError) Unit := do
  encryptUsers crypto nonces ((← get).db.users.filter plaintextUser)
  encryptNodes crypto nonces now ((← get).db.nodes.filter plaintextNode)

def legacySyncPlaceholderPassword : String := "placeholder-pwd"

/-- `UserPassword`. -/
def userPassword (u : User) : Option String :=
  if u.passwordCiphertext ≠ "" then
    if crypto.keyed then
      decryptCredential crypto.cipher (userPasswordPurpose u.id) u.passwordCiphertext
    else none
  else some u.password

/-- The rows that hold the placeholder. A row whose ciphertext cannot be opened is left
alone. -/
def holdsPlaceholder (u : User) : Bool :=
  u.password = legacySyncPlaceholderPassword ∨
    u.password = "" ∧ u.passwordCiphertext ≠ "" ∧
      userPassword crypto u = some legacySyncPlaceholderPassword

def clearCredential (u : User) : User := { u with password := "", passwordCiphertext := "" }

/-- The statements of the loop address rows by id. -/
def purgeSyncPlaceholderPasswords : Tx Unit := fun db =>
  let ids := (db.users.filter (holdsPlaceholder crypto)).map User.id
  .ok ((), db.updateUsers (fun u => if u.id ∈ ids then clearCredential u else u) (by
    intro u
    split <;> rfl))

/-! ### The list of migrations -/

/-- A migration of configuration texts. -/
def onConfigs (f : Table String String → Table String String) :
    StateT Store (Except UpError) Unit := fun store =>
  .ok ((), { store with configs := f store.configs })

/-- A registered migration; what it reads besides the store is fixed in advance. -/
abbrev StoreMigration := Migration Store Unit UpError

/-- The function of a registered migration. -/
def upgrade (tx : StateT Store (Except UpError) Unit) : Unit → Store → Except UpError Store :=
  fun _ store => (tx store).map Prod.snd

def encryptMigration (nonces : Nat → String) (now : Time) : StoreMigration :=
  ⟨5, "encrypt_recoverable_credentials", "2026-07-23",
    some (upgrade (encryptRecoverableCredentials crypto nonces now))⟩

def purgeMigration : StoreMigration :=
  ⟨6, "purge_sync_placeholder_passwords", "2026-07-25",
    some (upgrade (onDb (.user 0) (purgeSyncPlaceholderPasswords crypto)))⟩

def registeredMigrations (nonces : Nat → String) (now : Time) : List StoreMigration :=
  [⟨1, "normalize_legacy_clash_rule_groups", "2026-07-23",
    some (upgrade (onConfigs normalizeLegacyClashRuleGroups))⟩,
   ⟨2, "add_ai_routing_rules", "2026-07-23", some (upgrade (onConfigs addAIRoutingRules))⟩,
   ⟨3, "fix_legacy_lancidr_indentation", "2026-07-23",
    some (upgrade (onConfigs fixLegacyLANCIDRIndentation))⟩,
   ⟨4, "remove_unused_rule_providers", "2026-07-23",
    some (upgrade (onConfigs removeUnusedRuleProviders))⟩,
   encryptMigration crypto nonces now, purgeMigration crypto]

/-! ### Running through the list -/

/-- The migrations succeed and leave tables with this property. -/
def Leaves (previous : Nat) (ms : List StoreMigration) (t : Tables Store)
    (holds : Tables Store → Prop) : Prop :=
  ∃ t', runMigrations crypto.sha256 () previous ms t = .ok t' ∧ holds t'

/-- A recorded migration is still the published one. -/
def Published (m : StoreMigration) (t : Tables Store) : Prop :=
  ∀ r, t.recorded m.version = some r → r.name = m.name ∧ r.checksum = m.checksum crypto.sha256

section Runner

variable {crypto : Crypto} {previous : Nat} {m : StoreMigration} {ms : List StoreMigration}
  {t : Tables Store} {holds : Tables Store → Prop} {tx : StateT Store (Except UpError) Unit}

/-- The definition of a migration passes the checks of the runner. -/
def WellFormed (previous : Nat) (m : StoreMigration) : Prop :=
  (m.version ≠ 0 ∧ m.name ≠ "" ∧ m.revision ≠ "") ∧ previous < m.version

theorem leaves_nil : Leaves crypto previous [] t holds ↔ holds t := by
  constructor
  · rintro ⟨t', ran, held⟩
    cases ran
    exact held
  · exact fun held => ⟨t, rfl, held⟩

/-- A migration that is recorded is skipped, if its record is the published one. -/
theorem leaves_recorded (formed : WellFormed previous m) (runs : m.up = some (upgrade tx))
    {r : SchemaMigration} (found : t.recorded m.version = some r) :
    Leaves crypto previous (m :: ms) t holds ↔
      Published crypto m t ∧ Leaves crypto m.version ms t holds := by
  obtain ⟨⟨version, name, revision⟩, increasing⟩ := formed
  have published : Published crypto m t ↔
      r.name = m.name ∧ r.checksum = m.checksum crypto.sha256 := by
    simp [Published, found]
  rw [published]
  simp only [Leaves, runMigrations, runs, version, name, revision, or_self, if_false,
    if_neg (Nat.not_le.mpr increasing), found]
  split
  next changed =>
    constructor
    · rintro ⟨_, ran, _⟩
      cases ran
    · grind
  next same =>
    rw [not_or, not_not, not_not] at same
    simp [same]

/-- A migration that is not recorded is run. -/
theorem leaves_pending (formed : WellFormed previous m) (runs : m.up = some (upgrade tx))
    (absent : t.recorded m.version = none) :
    Leaves crypto previous (m :: ms) t holds ↔
      ∃ store, tx t.data = .ok ((), store) ∧
        Leaves crypto m.version ms ⟨store, t.applied ++ [m.record crypto.sha256]⟩ holds := by
  obtain ⟨⟨version, name, revision⟩, increasing⟩ := formed
  simp only [Leaves, runMigrations, runs, version, name, revision, absent, runMigration, upgrade,
    if_neg (Nat.not_le.mpr increasing)]
  cases ran : tx t.data with
  | error reason => simp [Except.map]
  | ok result =>
    obtain ⟨⟨⟩, -⟩ := result
    simp [Except.map]

/-- What a migration of configuration texts leaves. -/
def configured (crypto : Crypto) (m : StoreMigration)
    (f : Table String String → Table String String) (t : Tables Store) : Tables Store :=
  if t.recorded m.version = none then
    ⟨{ t.data with configs := f t.data.configs }, t.applied ++ [m.record crypto.sha256]⟩
  else t

variable {f : Table String String → Table String String}

/-- A migration of configuration texts fails only if its record is not the published one. -/
theorem leaves_config (formed : WellFormed previous m) (texts : m.up = some (upgrade (onConfigs f))) :
    Leaves crypto previous (m :: ms) t holds ↔
      Published crypto m t ∧ Leaves crypto m.version ms (configured crypto m f t) holds := by
  cases found : t.recorded m.version with
  | some r =>
    rw [leaves_recorded formed texts found, configured, if_neg (by simp [found])]
  | none =>
    have published : Published crypto m t := by simp [Published, found]
    rw [leaves_pending formed texts found, configured, if_pos found]
    simp [onConfigs, published]

@[simp] theorem configured_db (f : Table String String → Table String String) :
    (configured crypto m f t).data.db = t.data.db := by
  unfold configured
  split <;> rfl

/-- Recording one migration does not touch the records of the others. -/
theorem recorded_append {version : Nat} (other : m.version ≠ version) (store : Store) :
    (Tables.mk store (t.applied ++ [m.record crypto.sha256])).recorded version =
      t.recorded version := by
  simp [Tables.recorded, Migration.record, other]

theorem configured_recorded {version : Nat} (other : m.version ≠ version) :
    (configured crypto m f t).recorded version = t.recorded version := by
  unfold configured
  split
  · exact recorded_append other _
  · rfl

theorem published_configured {m' : StoreMigration} (other : m.version ≠ m'.version) :
    Published crypto m' (configured crypto m f t) ↔ Published crypto m' t := by
  simp only [Published, configured_recorded other]

end Runner

end TrojanGo.Database
