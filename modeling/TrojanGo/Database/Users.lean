import TrojanGo.Master.Credentials
import TrojanGo.Plane.World

/-!
# Statements on the user table

A statement that would leave two rows with one hash is refused by the unique index; a transaction
that contains one is rolled back. Each transaction comes with a lemma that says which rows it
leaves.
-/
namespace TrojanGo.Database

open Lib Master List

/-- The hash functions and the cipher that credentials are stored under. -/
structure Crypto where
  sha224 : String → String
  sha224_ne_empty : ∀ password, sha224 password ≠ ""
  sha256 : String → String
  fingerprint : String → String
  cipher : Cipher
  /-- the key of the cipher can be loaded -/
  keyed : Bool := true

/-- The columns of a user that a JSON value can set. -/
structure UserBody where
  id : Nat := 0
  username : String := ""
  hash : String := ""
  password : String := ""
  quota : Int := 0
  used : Int := 0
  upload : Int := 0
  download : Int := 0
  expiryTime : Option Time := none
  ipLimit : Int := 0
  status : Int := 0
  deriving DecidableEq, Repr

/-- The row that is inserted for a body; a quota of zero counts as absent and takes the
default of its column. -/
def UserBody.row (body : UserBody) (id : Nat) : User where
  id := id
  username := body.username
  hash := body.hash
  password := body.password
  quota := if body.quota = 0 then -1 else body.quota
  used := body.used
  upload := body.upload
  download := body.download
  expiryTime := body.expiryTime
  ipLimit := body.ipLimit
  status := body.status

/-! ### Single statements -/

/-- Replace the rows of the table, if the unique index admits it. -/
def storeUsers (users : List User) : Tx Unit := fun db =>
  if index : (users.map User.hash).Nodup then
    .ok ((), { db with users := users, userIndex := index })
  else .error .database

variable {users : List User} {db db' : Db}

theorem storeUsers_ok (stored : storeUsers users db = .ok ((), db')) :
    db'.users = users ∧ db'.nodes = db.nodes := by
  grind [storeUsers]

theorem storeUsers_total (db : Db) (index : (users.map User.hash).Nodup) :
    ∃ db', storeUsers users db = .ok ((), db') := by
  unfold storeUsers
  rw [dif_pos index]
  exact ⟨_, rfl⟩

/-- Rewrite the rows with one id. -/
def onUser (id : Nat) (f : User → User) (users : List User) : List User :=
  users.map fun u => if u.id = id then f u else u

variable {id : Nat} {f : User → User}

theorem onUser_eq_self (absent : id ∉ users.map User.id) : onUser id f users = users := by
  have same : ∀ u ∈ users, (if u.id = id then f u else u) = u := by
    intro u mem
    rw [if_neg fun equal => absent (mem_map.mpr ⟨u, mem, equal⟩)]
  exact (map_congr_left same).trans (map_id' _)

variable {row : User} {floor : Nat}

/-- A row with an id of its own. -/
theorem onUser_cons_self (free : row.id ∉ users.map User.id) :
    onUser row.id f (row :: users) = f row :: users := by
  have others := onUser_eq_self (f := f) free
  rw [onUser, map_cons, if_pos rfl]
  exact congrArg _ others

theorem onUser_onUser {g : User → User} (keeps : ∀ u, (f u).id = u.id) (users : List User) :
    onUser id g (onUser id f users) = onUser id (g ∘ f) users := by
  rw [onUser, onUser, map_map]
  apply map_congr_left
  intro u _
  by_cases same : u.id = id <;> simp [same, keeps]

theorem mem_onUser {u : User} (mem : u ∈ onUser id f users) :
    u ∈ users ∧ u.id ≠ id ∨ ∃ old ∈ users, old.id = id ∧ u = f old := by
  obtain ⟨old, inside, rfl⟩ := mem_map.mp mem
  by_cases same : old.id = id
  · rw [if_pos same]
    exact .inr ⟨old, inside, same, rfl⟩
  · rw [if_neg same]
    exact .inl ⟨inside, same⟩

theorem map_id_onUser (keeps : ∀ u, (f u).id = u.id) (users : List User) :
    (onUser id f users).map User.id = users.map User.id := by
  rw [onUser, map_map]
  apply map_congr_left
  intro u _
  by_cases same : u.id = id <;> simp [same, keeps]

def updateUsers (id : Nat) (f : User → User) : Tx Unit := fun db =>
  storeUsers (onUser id f db.users) db

/-- The first id that an insertion may use. Ids are not given out twice: the counter of the
table may be ahead of its rows, as far as `floor` says. -/
def freshID (floor : Nat) (users : List User) : Nat := max floor (Plane.nextID users)

theorem id_lt_nextID {u : User} (mem : u ∈ users) :
    u.id < Plane.nextID users := by
  have below : ∀ (ids : List Nat) (start : Nat), start ≤ ids.foldl max start ∧
      ∀ id ∈ ids, id ≤ ids.foldl max start := by
    intro ids
    induction ids with
    | nil => simp
    | cons id ids ih => grind
  exact Nat.lt_succ_of_le ((below _ 0).2 u.id (mem_map.mpr ⟨u, mem, rfl⟩))

def insertRow (row : User) : Tx User := fun db =>
  if row.id ∈ db.users.map User.id then .error .database
  else (storeUsers (row :: db.users) db).map fun stored => (row, stored.2)

theorem insertRow_ok {row' : User} (inserted : insertRow row db = .ok (row', db')) :
    row' = row ∧ db'.users = row :: db.users ∧ row.id ∉ db.users.map User.id := by
  unfold insertRow at inserted
  split at inserted
  · cases inserted
  next free =>
    cases stored : storeUsers (row :: db.users) db with
    | error reason =>
      rw [stored] at inserted
      cases inserted
    | ok result =>
      rw [stored] at inserted
      cases inserted
      exact ⟨rfl, (storeUsers_ok stored).1, free⟩

/-- `Create`: insert a row. An id of zero is replaced by a new one, another one must not be
taken. -/
def createUser (floor : Nat) (body : UserBody) : Tx User := fun db =>
  insertRow (body.row (if body.id = 0 then freshID floor db.users else body.id)) db

theorem createUser_ok {body : UserBody} (created : createUser floor body db = .ok (row, db')) :
    db'.users = row :: db.users ∧ row = body.row row.id ∧ row.id ∉ db.users.map User.id := by
  obtain ⟨rfl, rows, free⟩ := insertRow_ok created
  exact ⟨rows, rfl, free⟩

/-- The columns `SetUserPassword` writes. The password is encrypted for the row it is
stored in. -/
def withPassword (crypto : Crypto) (nonce password : String) (u : User) : User :=
  { u with
    password := ""
    passwordCiphertext := encryptCredential crypto.cipher (userPasswordPurpose u.id) nonce password
    passwordKeyID := "default"
    hash := crypto.sha224 password }

@[simp] theorem withPassword_hash (crypto : Crypto) (nonce password : String) (u : User) :
    (withPassword crypto nonce password u).hash = crypto.sha224 password := rfl

/-- `SetUserPassword`. A row that is gone is not missed. -/
def setUserPassword (crypto : Crypto) (nonces : Nat → String) (id : Nat) (password : String) :
    Tx Unit := fun db =>
  -- an empty password needs no key
  if id = 0 ∨ password ≠ "" ∧ crypto.keyed = false then .error .database
  else updateUsers id (withPassword crypto (nonces id) password) db

variable {nonces : Nat → String}

theorem setUserPassword_ok {crypto : Crypto} {password : String}
    (stored : setUserPassword crypto nonces id password db = .ok ((), db')) :
    db'.users = onUser id (withPassword crypto (nonces id) password) db.users ∧
      db'.nodes = db.nodes := by
  unfold setUserPassword at stored
  split at stored
  · cases stored
  · exact storeUsers_ok stored

def deleteUser (id : Nat) : Tx Unit := fun db =>
  .ok ((), { db with
    users := db.users.filter fun u => u.id ≠ id
    userIndex := db.userIndex.sublist (List.filter_sublist.map _) })

/-! ### Updates of single columns -/

/-- What the handlers for a user's quota, expiry and counters set. -/
inductive RowEdit where
  | quota (quota : Int)
  | expiryTime (expiry : Option Time)
  | clearTraffic
  deriving DecidableEq

def clearCounters (u : User) : User := { u with used := 0, upload := 0, download := 0 }

def RowEdit.apply : RowEdit → User → User
  | .quota limit, u => { u with quota := limit }
  | .expiryTime expiry, u => { u with expiryTime := expiry }
  | .clearTraffic, u => clearCounters u

/-- An update of one row that does not touch its hash: how many rows it found. -/
def updateRow (id : Nat) (edit : RowEdit) : Tx Nat := fun db =>
  .ok ((db.users.filter fun u => u.id = id).length,
    db.updateUsers (fun u => if u.id = id then edit.apply u else u) (by
      intro u
      split
      · cases edit <;> rfl
      · rfl))

theorem updateRow_ok {affected : Nat} {edit : RowEdit}
    (updated : updateRow id edit db = .ok (affected, db')) :
    db'.users = onUser id edit.apply db.users := by
  cases updated
  rfl

/-- The monthly reset of all counters. -/
def resetTraffic : Tx Unit := fun db => .ok ((), db.updateUsers clearCounters fun _ => rfl)

/-! ### The update handler's transaction -/

/-- The columns an update sets. -/
structure UserEdit where
  username : Option String := none
  status : Option Int := none
  quota : Option Int := none
  ipLimit : Option Int := none
  hash : Option String := none
  expiryTime : Option (Option Time) := none
  deriving DecidableEq

def UserEdit.apply (edit : UserEdit) (u : User) : User :=
  { u with
    username := edit.username.getD u.username
    status := edit.status.getD u.status
    quota := edit.quota.getD u.quota
    ipLimit := edit.ipLimit.getD u.ipLimit
    hash := edit.hash.getD u.hash
    expiryTime := edit.expiryTime.getD u.expiryTime }

def updateUser (crypto : Crypto) (nonces : Nat → String) (id : Nat) (edit : UserEdit)
    (password : Option String) : Tx Unit := do
  updateUsers id edit.apply
  match password with
  | none => return ()
  | some password => setUserPassword crypto nonces id password

/-- The row an update leaves. -/
def updated (crypto : Crypto) (nonce : String) (edit : UserEdit) (password : Option String)
    (u : User) : User :=
  match password with
  | none => edit.apply u
  | some password => withPassword crypto nonce password (edit.apply u)

@[simp] theorem updated_id (crypto : Crypto) (nonce : String) (edit : UserEdit)
    (password : Option String) (u : User) : (updated crypto nonce edit password u).id = u.id := by
  cases password <;> rfl

/-- The first step of a transaction that was not refused. -/
theorem Tx.bind_ok {α β : Type} {first : Tx α} {next : α → Tx β} {value : β}
    (ran : (first >>= next) db = .ok (value, db')) :
    ∃ a mid, first db = .ok (a, mid) ∧ next a mid = .ok (value, db') := by
  simp only [bind, StateT.bind, Except.bind] at ran
  split at ran
  · cases ran
  next result stepped => exact ⟨result.1, result.2, stepped, ran⟩

theorem updateUser_ok {crypto : Crypto} {edit : UserEdit} {password : Option String}
    (ran : updateUser crypto nonces id edit password db = .ok ((), db')) :
    db'.users = onUser id (updated crypto (nonces id) edit password) db.users := by
  obtain ⟨_, mid, edited, rest⟩ := Tx.bind_ok ran
  obtain ⟨rows, -⟩ := storeUsers_ok edited
  cases password with
  | none =>
    cases rest
    exact rows
  | some password =>
    rw [(setUserPassword_ok rest).1, rows, onUser_onUser (f := edit.apply) fun _ => rfl]
    rfl

/-! ### Importing a backup -/

/-- The hash under which an entry of a backup is looked up. -/
def UserBody.restoreHash (crypto : Crypto) (entry : UserBody) : String :=
  if entry.hash = "" ∧ entry.password ≠ "" then crypto.sha224 entry.password else entry.hash

/-- One entry of a backup: the row it restores, if it restores one. -/
def restoreUser (crypto : Crypto) (floor : Nat) (nonces : Nat → String) (entry : UserBody) :
    Tx (Option User) := fun db =>
  let hash := entry.restoreHash crypto
  if hash = "" ∨ hash ∈ db.users.map User.hash then .ok (none, db)
  else
    (do
      let row ← createUser floor { entry with id := 0, hash := hash, password := "" }
      if entry.password = "" then return some row
      else
        setUserPassword crypto nonces row.id entry.password
        return some (withPassword crypto (nonces row.id) entry.password row) : Tx (Option User)) db

/-- The import: the hashes of the restored users that are enabled, and how many rows were
restored. -/
def restoreUsers (crypto : Crypto) (floor : Nat) (nonces : Nat → String) :
    List UserBody → Tx (List String × Nat)
  | [] => return ([], 0)
  | entry :: entries => do
    let restored ← restoreUser crypto floor nonces entry
    let (hashes, count) ← restoreUsers crypto floor nonces entries
    match restored with
    | none => return (hashes, count)
    | some u => return (if u.status = 0 then u.hash :: hashes else hashes, count + 1)

/-- The row an entry of a backup becomes. -/
def restored (crypto : Crypto) (nonces : Nat → String) (entry : UserBody) (id : Nat) : User :=
  let row := { entry with hash := entry.restoreHash crypto, password := "" }.row id
  if entry.password = "" then row else withPassword crypto (nonces id) entry.password row

@[simp] theorem restored_id (crypto : Crypto) (nonces : Nat → String) (entry : UserBody)
    (id : Nat) : (restored crypto nonces entry id).id = id := by
  unfold restored
  split <;> rfl

theorem restoreUser_ok {crypto : Crypto} {entry : UserBody} {result : Option User}
    (ran : restoreUser crypto floor nonces entry db = .ok (result, db')) :
    (result = none ∧ db'.users = db.users ∧
        (entry.restoreHash crypto = "" ∨ entry.restoreHash crypto ∈ db.users.map User.hash)) ∨
      ∃ id, id ∉ db.users.map User.id ∧ result = some (restored crypto nonces entry id) ∧
        db'.users = restored crypto nonces entry id :: db.users ∧
        entry.restoreHash crypto ∉ db.users.map User.hash := by
  simp only [restoreUser] at ran
  split at ran
  next known =>
    cases ran
    exact .inl ⟨rfl, rfl, known⟩
  next unknown =>
  have absent := (not_or.mp unknown).2
  obtain ⟨row, mid, created, rest⟩ := Tx.bind_ok ran
  obtain ⟨rows, shape, free⟩ := createUser_ok created
  refine .inr ⟨row.id, free, ?_⟩
  by_cases empty : entry.password = ""
  · rw [if_pos empty] at rest
    cases rest
    have same : restored crypto nonces entry row.id = row := by
      rw [restored, if_pos empty]
      exact shape.symm
    rw [same]
    exact ⟨rfl, rows, absent⟩
  · rw [if_neg empty] at rest
    obtain ⟨_, last, stored, done⟩ := Tx.bind_ok rest
    cases done
    have same : restored crypto nonces entry row.id =
        withPassword crypto (nonces row.id) entry.password row := by
      rw [restored, if_neg empty]
      exact congrArg _ shape.symm
    rw [same]
    refine ⟨rfl, ?_, absent⟩
    rw [(setUserPassword_ok stored).1, rows, onUser_cons_self free]

/-- The rows an import adds come from entries whose hash was not stored, and every entry with a
hash is stored afterwards: as a row of its own, or because a row has its hash. -/
structure Adds (crypto : Crypto) (nonces : Nat → String) (users : List User)
    (entries : List UserBody) (rows : List User) : Prop where
  absent : ∀ u ∈ rows, ∃ entry ∈ entries, u = restored crypto nonces entry u.id ∧
    entry.restoreHash crypto ∉ users.map User.hash
  all : ∀ entry ∈ entries, entry.restoreHash crypto = "" ∨
    entry.restoreHash crypto ∈ (rows ++ users).map User.hash ∨
    ∃ u ∈ rows, u = restored crypto nonces entry u.id

theorem restoreUsers_ok {crypto : Crypto} {entries : List UserBody} {result : List String × Nat}
    (ran : restoreUsers crypto floor nonces entries db = .ok (result, db')) :
    ∃ rows, db'.users = rows ++ db.users ∧ Adds crypto nonces db.users entries rows ∧
      (rows.map User.id).Nodup ∧ (∀ u ∈ rows, u.id ∉ db.users.map User.id) ∧
      ∀ hash, hash ∈ result.1 ↔ ∃ u ∈ rows, u.status = 0 ∧ u.hash = hash := by
  induction entries generalizing db db' result with
  | nil =>
    cases ran
    exact ⟨[], rfl, ⟨by simp, by simp⟩, by simp, by simp, by simp⟩
  | cons entry entries ih =>
    obtain ⟨first, mid, one, rest⟩ := Tx.bind_ok ran
    obtain ⟨⟨hashes, count⟩, last, others, done⟩ := Tx.bind_ok rest
    obtain ⟨rows, left, ⟨absent, all⟩, keys, apart, reported⟩ := ih others
    rcases restoreUser_ok one with ⟨rfl, same, known⟩ | ⟨id, free, rfl, added, new⟩
    · cases done
      rw [same] at left apart absent all
      refine ⟨rows, left, ⟨?_, ?_⟩, keys, apart, reported⟩
      · intro u mem
        obtain ⟨e, inside, shape⟩ := absent u mem
        exact ⟨e, mem_cons_of_mem _ inside, shape⟩
      · refine forall_mem_cons.mpr ⟨known.imp_right fun stored => .inl ?_, all⟩
        rw [map_append]
        exact mem_append_right _ stored
    · cases done
      -- the row of this entry comes last among the new ones
      rw [added] at left apart absent all
      refine ⟨rows ++ [restored crypto nonces entry id], ?_, ⟨?_, ?_⟩, ?_, ?_, ?_⟩
      · rw [left, append_assoc]
        rfl
      · intro u mem
        rcases mem_append.mp mem with inside | inside
        · obtain ⟨e, member, shape, missing⟩ := absent u inside
          exact ⟨e, mem_cons_of_mem _ member, shape, fun stored =>
            missing (mem_cons_of_mem _ stored)⟩
        · obtain rfl := mem_singleton.mp inside
          exact ⟨entry, mem_cons_self, by rw [restored_id], new⟩
      · rw [append_assoc]
        refine forall_mem_cons.mpr ⟨.inr (.inr ⟨_, mem_append_right _ (mem_singleton_self _), ?_⟩), ?_⟩
        · rw [restored_id]
        · intro e member
          refine (all e member).imp_right (Or.imp_right ?_)
          rintro ⟨u, inside, shape⟩
          exact ⟨u, mem_append_left _ inside, shape⟩
      · grind
      · intro u mem
        rcases mem_append.mp mem with inside | inside
        · intro taken
          exact apart u inside (mem_cons_of_mem _ taken)
        · obtain rfl := mem_singleton.mp inside
          rwa [restored_id]
      · grind

/-- An entry with a hash and a password brings the hash of its password. -/
def UserBody.Matching (crypto : Crypto) (entry : UserBody) : Prop :=
  entry.hash = "" ∨ entry.password = "" ∨ entry.hash = crypto.sha224 entry.password

instance (crypto : Crypto) (entry : UserBody) : Decidable (entry.Matching crypto) :=
  inferInstanceAs (Decidable (_ ∨ _ ∨ _))

/-- The row of such an entry is found under the hash that the import looks for. -/
theorem UserBody.Matching.restored_hash {crypto : Crypto} {entry : UserBody}
    (matching : entry.Matching crypto) (id : Nat) :
    (restored crypto nonces entry id).hash = entry.restoreHash crypto := by
  unfold restored
  split
  · rfl
  next given =>
    rw [withPassword_hash, restoreHash]
    rcases matching with empty | missing | same
    · rw [if_pos ⟨empty, given⟩]
    · exact absurd missing given
    · split
      · rfl
      · exact same.symm

theorem Adds.stored {crypto : Crypto} {users rows : List User} {entries : List UserBody}
    (adds : Adds crypto nonces users entries rows) {entry : UserBody} (member : entry ∈ entries)
    (matching : entry.Matching crypto ∨ entry.hash ∈ users.map User.hash) :
    entry.restoreHash crypto = "" ∨
      entry.restoreHash crypto ∈ (rows ++ users).map User.hash := by
  rcases adds.all entry member with empty | stored | ⟨u, inside, shape⟩
  · exact .inl empty
  · exact .inr stored
  right
  by_cases fits : entry.Matching crypto
  · rw [← fits.restored_hash u.id, ← shape]
    exact mem_map_of_mem (mem_append_left _ inside)
  · have old := matching.resolve_left fits
    have own : entry.restoreHash crypto = entry.hash := if_neg fun bare => fits (.inl bare.1)
    rw [own, map_append]
    exact mem_append_right _ old

namespace Sample

/-- Functions that keep their argument readable, for runs on fixed inputs. -/
def crypto : Crypto where
  sha224 password := "sha224:" ++ password
  sha224_ne_empty password empty := by
    have length := congrArg String.length empty
    rw [String.length_append] at length
    simp at length
  sha256 text := text
  fingerprint secret := "fp:" ++ secret
  cipher := .plain

end Sample

end TrojanGo.Database
