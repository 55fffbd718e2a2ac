import TrojanGo.Database.Migrations

/-!
# Hashes across the credential migrations

The fifth migration stores every plaintext password as if it had just been set, so it also
recomputes the hash of the row. The argument looks at the first row whose hash changes: up to
there the index only admits a hash that no row had.
-/
namespace TrojanGo.Database

open Lib Master List

/-! ### Encrypting plaintext credentials -/

section Encrypt

variable {crypto : Crypto} {nonces : Nat → String} {now : Time}

/-- What the statement for one user does to a row. -/
def encryptedFor (crypto : Crypto) (nonces : Nat → String) (u row : User) : User :=
  if row.id = u.id then withPassword crypto (nonces u.id) u.password row else row

/-- What every new password keeps, the encryption of all plaintext passwords keeps. -/
theorem applyAll_encryptedFor {crypto : Crypto} {nonces : Nat → String} {P : User → Prop}
    (keeps : ∀ nonce password u, P u → P (withPassword crypto nonce password u)) (todo : List User)
    {u : User} (holds : P u) : P (applyAll (todo.map (encryptedFor crypto nonces)) u) := by
  refine applyAll_keeps (fun edit mem row holds => ?_) holds
  obtain ⟨first, -, rfl⟩ := mem_map.mp mem
  unfold encryptedFor
  split
  · exact keeps _ _ _ holds
  · exact holds

/-- What the statement for one node does to a row. -/
def retiredFor (crypto : Crypto) (nonces : Nat → String) (now : Time) (node row : Node) : Node :=
  if row.id = node.id then
    Nodes.withSecret crypto.fingerprint node.secret
      (encryptCredential crypto.cipher (nodeSecretPurpose node.id) (nonces node.id) node.secret)
      now row
  else row

def sameHash (a b : User) : Prop := a.hash = b.hash

theorem nodup_hashes_iff {users : List User} :
    (users.map User.hash).Nodup ↔ users.Pairwise fun a b => ¬ sameHash a b :=
  pairwise_map

theorem encryptUser_effect {u : User} {store store' : Store}
    (ran : onDb (.user u.id) (setUserPassword crypto nonces u.id u.password) store = .ok ((), store')) :
    store'.db.users = store.db.users.map (encryptedFor crypto nonces u) ∧
      store'.db.users.Pairwise fun a b => ¬ sameHash a b := by
  obtain ⟨db, stored, rfl⟩ := onDb_ok ran
  exact ⟨(setUserPassword_ok stored).1, nodup_hashes_iff.mp db.userIndex⟩

theorem encryptUser_guarded {u : User} (nonzero : u.id ≠ 0) (keyed : crypto.keyed = true) :
    Guarded (fun store : Store => store.db.users) sameHash
      (onDb (.user u.id) (setUserPassword crypto nonces u.id u.password))
      (encryptedFor crypto nonces u) where
  effect _ _ ran := encryptUser_effect ran
  total store apart := by
    obtain ⟨db, stored⟩ := storeUsers_total store.db (nodup_hashes_iff.mpr apart)
    refine ⟨{ store with db := db }, ?_⟩
    have ran : setUserPassword crypto nonces u.id u.password store.db = .ok ((), db) := by
      rw [setUserPassword, if_neg (by simp [nonzero, keyed])]
      exact stored
    simp only [onDb, ran]

variable {db : Db}

theorem setNodeSecret_ok {id : Nat} {secret : String} {db' : Db}
    (stored : setNodeSecret crypto nonces now id secret db = .ok ((), db')) :
    db'.users = db.users ∧ db'.nodes = Nodes.onNode id (Nodes.withSecret crypto.fingerprint secret
        (encryptCredential crypto.cipher (nodeSecretPurpose id) (nonces id) secret) now) db.nodes ∧
      db'.nodes.Pairwise fun a b => ¬ nodesClash a b := by
  grind [setNodeSecret]

theorem encryptNode_effect {node : Node} {store store' : Store}
    (ran : onDb (.node node.id) (setNodeSecret crypto nonces now node.id node.secret) store =
      .ok ((), store')) :
    store'.db.nodes = store.db.nodes.map (retiredFor crypto nonces now node) ∧
      store'.db.nodes.Pairwise fun a b => ¬ nodesClash a b := by
  obtain ⟨db, stored, rfl⟩ := onDb_ok ran
  exact (setNodeSecret_ok stored).2

theorem encryptNode_guarded {node : Node} (nonzero : node.id ≠ 0) (keyed : crypto.keyed = true) :
    Guarded (fun store : Store => store.db.nodes) nodesClash
      (onDb (.node node.id) (setNodeSecret crypto nonces now node.id node.secret))
      (retiredFor crypto nonces now node) where
  effect _ _ ran := encryptNode_effect ran
  total store apart := by
    have ran : setNodeSecret crypto nonces now node.id node.secret store.db = .ok ((),
        { store.db with nodes := (store.db.nodes.map (retiredFor crypto nonces now node)) }) :=
      if_pos ⟨⟨nonzero, .inr keyed⟩, apart⟩
    simp only [onDb, ran]
    exact ⟨_, rfl⟩

/-- The rows of both tables stay apart while the plaintext credentials are encrypted. -/
def StaysApart (crypto : Crypto) (nonces : Nat → String) (now : Time) (db : Db) : Prop :=
  Apart sameHash (encryptedFor crypto nonces) (db.users.filter plaintextUser) db.users ∧
    Apart nodesClash (retiredFor crypto nonces now) (db.nodes.filter plaintextNode) db.nodes

/-- The user table after the plaintext passwords were encrypted. -/
def encryptedUsers (crypto : Crypto) (nonces : Nat → String) (users : List User) : List User :=
  users.map (applyAll ((users.filter plaintextUser).map (encryptedFor crypto nonces)))

theorem encryptUsers_frame {todo : List User} {store store' : Store}
    (ran : encryptUsers crypto nonces todo store = .ok ((), store')) :
    store'.db.nodes = store.db.nodes := by
  refine forM_keeps (f := fun store : Store => store.db.nodes) ?_ ran
  intro u _ s s' stepped
  obtain ⟨db, stored, rfl⟩ := onDb_ok stepped
  exact (setUserPassword_ok stored).2

theorem encryptNodes_frame {todo : List Node} {store store' : Store}
    (ran : encryptNodes crypto nonces now todo store = .ok ((), store')) :
    store'.db.users = store.db.users := by
  refine forM_keeps (f := fun store : Store => store.db.users) ?_ ran
  intro node _ s s' stepped
  obtain ⟨db, stored, rfl⟩ := onDb_ok stepped
  exact (setNodeSecret_ok stored).1

/-- Ids come from a counter that starts at one. -/
def Numbered (db : Db) : Prop := (∀ u ∈ db.users, u.id ≠ 0) ∧ ∀ node ∈ db.nodes, node.id ≠ 0

/-- The key can be loaded, or is not needed. -/
def Encryptable (crypto : Crypto) (db : Db) : Prop :=
  crypto.keyed = true ∨ db.users.filter plaintextUser = [] ∧ db.nodes.filter plaintextNode = []

theorem encryptUsers_guarded (numbered : Numbered db) (able : Encryptable crypto db) :
    ∀ u ∈ db.users.filter plaintextUser, Guarded (fun store : Store => store.db.users) sameHash
      (onDb (.user u.id) (setUserPassword crypto nonces u.id u.password))
      (encryptedFor crypto nonces u) := by
  intro u mem
  rcases able with keyed | ⟨nobody, -⟩
  · exact encryptUser_guarded (numbered.1 u (mem_filter.mp mem).1) keyed
  · simp [nobody] at mem

theorem encryptNodes_guarded (numbered : Numbered db) (able : Encryptable crypto db) :
    ∀ node ∈ db.nodes.filter plaintextNode, Guarded (fun store : Store => store.db.nodes) nodesClash
      (onDb (.node node.id) (setNodeSecret crypto nonces now node.id node.secret))
      (retiredFor crypto nonces now node) := by
  intro node mem
  rcases able with keyed | ⟨-, none⟩
  · exact encryptNode_guarded (numbered.2 node (mem_filter.mp mem).1) keyed
  · simp [none] at mem

/-- The two loops of the fifth migration. -/
theorem encryptRecoverableCredentials_eq (store : Store) :
    encryptRecoverableCredentials crypto nonces now store =
      (encryptUsers crypto nonces (store.db.users.filter plaintextUser) store).bind fun done =>
        encryptNodes crypto nonces now (done.2.db.nodes.filter plaintextNode) done.2 := by
  rfl

/-- What the fifth migration leaves when it succeeds. -/
theorem encryptRecoverableCredentials_ok {store store' : Store}
    (ran : encryptRecoverableCredentials crypto nonces now store = .ok ((), store')) :
    (Encryptable crypto store.db ∧ StaysApart crypto nonces now store.db) ∧
      store'.db.users = encryptedUsers crypto nonces store.db.users := by
  rw [encryptRecoverableCredentials_eq] at ran
  cases first : encryptUsers crypto nonces (store.db.users.filter plaintextUser) store with
  | error reason =>
    rw [first] at ran
    cases ran
  | ok done =>
    obtain ⟨⟨⟩, mid⟩ := done
    rw [first] at ran
    have second : encryptNodes crypto nonces now (mid.db.nodes.filter plaintextNode) mid =
      .ok ((), store') := ran
    have nodes := encryptUsers_frame first
    have users := encryptNodes_frame second
    obtain ⟨left, apart⟩ := forM_effect (fun u _ s s' => @encryptUser_effect crypto nonces u s s') first
    rw [nodes] at second
    have apart' := (forM_effect
      (fun node _ s s' => @encryptNode_effect crypto nonces now node s s') second).2
    rw [nodes] at apart'
    refine ⟨⟨?_, apart, apart'⟩, users.trans left⟩
    -- without a key no statement succeeds
    by_cases keyed : crypto.keyed = true
    · exact .inl keyed
    refine .inr ⟨forM_fails ?_ first, forM_fails ?_ second⟩
    · intro u mem s s' stepped
      have plain := (mem_filter.mp mem).2
      obtain ⟨db, stored, -⟩ := onDb_ok stepped
      grind [setUserPassword, plaintextUser]
    · intro node mem s s' stepped
      have plain := (mem_filter.mp mem).2
      obtain ⟨db, stored, -⟩ := onDb_ok stepped
      grind [setNodeSecret, plaintextNode]

/-- The fifth migration fails only if it has no key or two rows would meet. -/
theorem encryptRecoverableCredentials_total {store : Store} (numbered : Numbered store.db)
    (able : Encryptable crypto store.db) (apart : StaysApart crypto nonces now store.db) :
    ∃ store', encryptRecoverableCredentials crypto nonces now store = .ok ((), store') := by
  obtain ⟨mid, first⟩ := (forM_ok_iff (encryptUsers_guarded numbered able) store).mpr apart.1
  have kept := encryptUsers_frame first
  have nodes := @encryptNodes_guarded crypto nonces now _ numbered able
  rw [← kept] at nodes
  obtain ⟨store', second⟩ := (forM_ok_iff nodes mid).mpr (kept ▸ apart.2)
  refine ⟨store', ?_⟩
  rw [encryptRecoverableCredentials_eq, encryptUsers, first]
  exact second

/-! ### Hashes -/

@[simp] theorem encryptedFor_id (u row : User) : (encryptedFor crypto nonces u row).id = row.id := by
  unfold encryptedFor
  split <;> rfl

theorem hash_applyAll {todo : List User} (keys : (todo.map User.id).Nodup) (row : User) :
    ((∀ u ∈ todo, u.id ≠ row.id) →
      (applyAll (todo.map (encryptedFor crypto nonces)) row).hash = row.hash) ∧
    ∀ u ∈ todo, u.id = row.id →
      (applyAll (todo.map (encryptedFor crypto nonces)) row).hash = crypto.sha224 u.password := by
  induction todo generalizing row with
  | nil => simp [applyAll]
  | cons first todo ih =>
    obtain ⟨new, keys⟩ := nodup_cons.mp keys
    have rest := ih keys (encryptedFor crypto nonces first row)
    rw [encryptedFor_id] at rest
    by_cases hit : row.id = first.id
    · -- no later statement addresses this row
      have once : ∀ u ∈ todo, u.id ≠ row.id := by
        intro u mem same
        exact new (mem_map.mpr ⟨u, mem, same.trans hit⟩)
      have hash : (applyAll ((first :: todo).map (encryptedFor crypto nonces)) row).hash =
          crypto.sha224 first.password := by
        refine (rest.1 once).trans ?_
        rw [encryptedFor, if_pos hit, withPassword_hash]
      constructor
      · intro none
        exact absurd hit.symm (none first mem_cons_self)
      · grind
    · have same : encryptedFor crypto nonces first row = row := by rw [encryptedFor, if_neg hit]
      rw [same] at rest
      have step : applyAll ((first :: todo).map (encryptedFor crypto nonces)) row =
          applyAll (todo.map (encryptedFor crypto nonces)) row := by
        show applyAll _ (encryptedFor crypto nonces first row) = _
        rw [same]
      rw [step]
      constructor
      · intro none
        exact rest.1 fun u mem => none u (mem_cons_of_mem _ mem)
      · grind

/-- The hash of a row after some of the rows of its table were encrypted. -/
theorem hash_encrypted {users done : List User} (keys : (users.map User.id).Nodup)
    (sub : done.Sublist users) {u : User} (mem : u ∈ users) :
    (applyAll (done.map (encryptedFor crypto nonces)) u).hash =
      if u ∈ done then crypto.sha224 u.password else u.hash := by
  have spec := @hash_applyAll crypto nonces done (keys.sublist (sub.map _)) u
  split
  next inside => exact spec.2 u inside rfl
  next outside =>
    apply spec.1
    intro other found same
    exact outside (inj_on_of_nodup_map keys (sub.subset found) mem same ▸ found)

/-- Every plaintext password is the one its row's hash was made of. -/
def PlaintextMatches (crypto : Crypto) (db : Db) : Prop :=
  ∀ u ∈ db.users, plaintextUser u → u.hash = crypto.sha224 u.password

/-- The nodes stay apart while their secrets are retired one after another. -/
def NodesApart (crypto : Crypto) (nonces : Nat → String) (now : Time) (db : Db) : Prop :=
  Apart nodesClash (retiredFor crypto nonces now) (db.nodes.filter plaintextNode) db.nodes

/-- Where the plaintext passwords match, no hash changes at any point. -/
theorem hashes_of_matches (keys : (db.users.map User.id).Nodup)
    (matches_ : PlaintextMatches crypto db) {done : List User}
    (sub : done.Sublist (db.users.filter plaintextUser)) :
    (db.users.map (applyAll (done.map (encryptedFor crypto nonces)))).map User.hash =
      db.users.map User.hash := by
  rw [map_map]
  apply map_congr_left
  intro u mem
  show (applyAll _ u).hash = u.hash
  rw [hash_encrypted keys (sub.trans filter_sublist) mem]
  split
  next inside => exact (matches_ u mem (mem_filter.mp (sub.subset inside)).2).symm
  · rfl

/-- The first row whose hash changes takes one that no row had before. -/
theorem new_hash_of_apart (keys : (db.users.map User.id).Nodup)
    (apart : Apart sameHash (encryptedFor crypto nonces) (db.users.filter plaintextUser) db.users)
    (differ : ¬ PlaintextMatches crypto db) :
    ∃ u ∈ db.users, plaintextUser u ∧ crypto.sha224 u.password ∉ db.users.map User.hash := by
  have hit : ((db.users.filter plaintextUser).find? fun u =>
      decide (u.hash ≠ crypto.sha224 u.password)).isSome := by
    grind [PlaintextMatches]
  obtain ⟨w, found⟩ := Option.isSome_iff_exists.mp hit
  obtain ⟨changed, done, later, split, before⟩ := find?_eq_some_iff_append.mp found
  obtain ⟨mem, plain⟩ := mem_filter.mp (mem_of_find?_eq_some found)
  refine ⟨w, mem, plain, ?_⟩
  intro taken
  obtain ⟨v, memberV, same⟩ := mem_map.mp taken
  have sub : (done ++ [w]).Sublist (db.users.filter plaintextUser) := by grind
  have hashOf := fun u mem => @hash_encrypted crypto nonces db.users (done ++ [w]) keys
    (sub.trans filter_sublist) u mem
  have other : v ≠ w := by grind
  -- up to here no hash has changed, so the other row still has the one that is asked for
  have hashV : (applyAll ((done ++ [w]).map (encryptedFor crypto nonces)) v).hash =
      (applyAll ((done ++ [w]).map (encryptedFor crypto nonces)) w).hash := by
    rw [hashOf v memberV, hashOf w mem]
    grind
  have free := nodup_hashes_iff.mpr (apart done w later split)
  rw [map_map] at free
  exact other (inj_on_of_nodup_map free memberV mem hashV)

end Encrypt

/-! ### The registered migrations -/

/-- A database that the migrations find, with its primary keys. -/
structure Legacy where
  tables : Tables Store
  userKeys : (tables.data.db.users.map User.id).Nodup
  numbered : Numbered tables.data.db

section Registered

variable {crypto : Crypto} {nonces : Nat → String} {now : Time} {t : Tables Store}

/-- The user hashes that some tables hold. -/
def Tables.hashes (t : Tables Store) : List String := t.data.db.users.map User.hash

/-- The sixth migration leaves every hash. -/
theorem leaves_purge {holds : List String → Prop} :
    Leaves crypto 5 [purgeMigration crypto] t (fun t' => holds t'.hashes) ↔
      Published crypto (purgeMigration crypto) t ∧ holds t.hashes := by
  have formed : WellFormed 5 (purgeMigration crypto) := by simp [WellFormed, purgeMigration]
  cases found : t.recorded (purgeMigration crypto).version with
  | some r => rw [leaves_recorded formed rfl found, leaves_nil]
  | none =>
    have published : Published crypto (purgeMigration crypto) t := by simp [Published, found]
    rw [leaves_pending formed rfl found]
    simp only [leaves_nil, published, true_and]
    have same : ∀ store, onDb (.user 0) (purgeSyncPlaceholderPasswords crypto) t.data =
        .ok ((), store) → store.db.users.map User.hash = t.hashes := by
      intro store purged
      cases purged
      show ((t.data.db.users.map _).map User.hash) = _
      rw [map_map]
      apply map_congr_left
      intro u _
      show User.hash (if _ then _ else _) = _
      split <;> rfl
    constructor
    · rintro ⟨store, ran, held⟩
      rwa [← same store ran]
    · intro held
      refine ⟨_, rfl, ?_⟩
      rwa [Tables.hashes, same _ rfl]

theorem leaves_credentials (keys : (t.data.db.users.map User.id).Nodup)
    (numbered : Numbered t.data.db) :
    Leaves crypto 4 [encryptMigration crypto nonces now, purgeMigration crypto] t
        (fun t' => ∀ hash, hash ∈ t'.hashes ↔ hash ∈ t.hashes) ↔
      Published crypto (encryptMigration crypto nonces now) t ∧
        Published crypto (purgeMigration crypto) t ∧
        ((t.recorded 5).isSome ∨ Encryptable crypto t.data.db ∧
          PlaintextMatches crypto t.data.db ∧ NodesApart crypto nonces now t.data.db) := by
  have formed : WellFormed 4 (encryptMigration crypto nonces now) := by
    simp [WellFormed, encryptMigration]
  have purge := fun t' : Tables Store => @leaves_purge crypto t' fun left =>
    ∀ hash, hash ∈ left ↔ hash ∈ t.hashes
  cases found : t.recorded (encryptMigration crypto nonces now).version with
  | some r =>
    have recorded : (t.recorded 5).isSome := Option.isSome_iff_exists.mpr ⟨r, found⟩
    rw [leaves_recorded formed rfl found]
    constructor
    · rintro ⟨published, rest⟩
      obtain ⟨published', _⟩ := (purge t).mp rest
      exact ⟨published, published', .inl recorded⟩
    · rintro ⟨published, published', _⟩
      exact ⟨published, (purge t).mpr ⟨published', fun _ => Iff.rfl⟩⟩
  | none =>
    have pending : (t.recorded 5).isSome = false := by
      rw [show t.recorded 5 = none from found]
      rfl
    have published : Published crypto (encryptMigration crypto nonces now) t := by
      simp [Published, found]
    have purged : ∀ store, Published crypto (purgeMigration crypto)
          ⟨store, t.applied ++ [(encryptMigration crypto nonces now).record crypto.sha256]⟩ ↔
        Published crypto (purgeMigration crypto) t := by
      intro store
      rw [Published, recorded_append (by simp [encryptMigration, purgeMigration]), Published]
    rw [leaves_pending formed rfl found]
    simp only [pending, published, true_and, Bool.false_eq_true, false_or]
    constructor
    · rintro ⟨store, ran, rest⟩
      obtain ⟨⟨able, apart⟩, users⟩ := encryptRecoverableCredentials_ok ran
      obtain ⟨published', same⟩ := (purge _).mp rest
      refine ⟨(purged store).mp published', able, ?_, apart.2⟩
      by_contra differ
      obtain ⟨u, mem, plain, new⟩ := new_hash_of_apart keys apart.1 differ
      apply new
      refine (same _).mp ?_
      rw [Tables.hashes, users]
      have inTodo : u ∈ t.data.db.users.filter plaintextUser := mem_filter.mpr ⟨mem, plain⟩
      refine mem_map.mpr ⟨_, mem_map.mpr ⟨u, mem, rfl⟩, ?_⟩
      rw [hash_encrypted keys filter_sublist mem, if_pos inTodo]
    · rintro ⟨published', able, matches_, nodes⟩
      have apart : StaysApart crypto nonces now t.data.db := by
        refine ⟨?_, nodes⟩
        intro done u later split
        apply nodup_hashes_iff.mp
        have sub : (done ++ [u]).Sublist (t.data.db.users.filter plaintextUser) := by grind
        rw [hashes_of_matches keys matches_ sub]
        exact t.data.db.userIndex
      obtain ⟨store, ran⟩ := encryptRecoverableCredentials_total numbered able apart
      obtain ⟨_, users⟩ := encryptRecoverableCredentials_ok ran
      refine ⟨store, ran, (purge _).mpr ⟨(purged store).mpr published', ?_⟩⟩
      intro hash
      rw [Tables.hashes, users, encryptedUsers, hashes_of_matches keys matches_ (List.Sublist.refl _),
        Tables.hashes]

/-- The registered migrations succeed and leave the set of user hashes as it was. -/
def KeepsHashes (crypto : Crypto) (nonces : Nat → String) (now : Time) (t : Tables Store) : Prop :=
  ∃ t', runMigrations crypto.sha256 () 0 (registeredMigrations crypto nonces now) t = .ok t' ∧
    ∀ hash, hash ∈ t'.hashes ↔ hash ∈ t.hashes

end Registered

/-- The migrations succeed on a database and keep its hashes exactly if no recorded migration
was published differently and, unless credentials were encrypted before, there is a key if
anything is in plaintext, every plaintext password is the one its row's hash was made of, and the
retired node secrets never collide. -/
theorem migrations_keep_hashes_iff (crypto : Crypto) (nonces : Nat → String) (now : Time)
    (legacy : Legacy) :
    KeepsHashes crypto nonces now legacy.tables ↔
      (∀ m ∈ registeredMigrations crypto nonces now, Published crypto m legacy.tables) ∧
        ((legacy.tables.recorded 5).isSome ∨ Encryptable crypto legacy.tables.data.db ∧
          PlaintextMatches crypto legacy.tables.data.db ∧
          NodesApart crypto nonces now legacy.tables.data.db) := by
  obtain ⟨t, keys, numbered⟩ := legacy
  show Leaves crypto 0 _ t _ ↔ _
  -- the first four migrations touch neither table
  rw [registeredMigrations, leaves_config (by simp [WellFormed]) rfl,
    leaves_config (by simp [WellFormed]) rfl, leaves_config (by simp [WellFormed]) rfl,
    leaves_config (by simp [WellFormed]) rfl]
  simp only [published_configured, forall_mem_cons, Nat.reduceEqDiff, ne_eq, not_false_eq_true]
  generalize left : configured crypto _ removeUnusedRuleProviders _ = mid
  have db : mid.data.db = t.data.db := by simp only [← left, configured_db]
  have encryptRecord : mid.recorded 5 = t.recorded 5 := by
    simp only [← left, configured_recorded, ne_eq, Nat.reduceEqDiff, not_false_eq_true]
  have purgeRecord : mid.recorded 6 = t.recorded 6 := by
    simp only [← left, configured_recorded, ne_eq, Nat.reduceEqDiff, not_false_eq_true]
  have last := @leaves_credentials crypto nonces now mid (db ▸ keys) (db ▸ numbered)
  have published : (Published crypto (encryptMigration crypto nonces now) mid ↔
        Published crypto (encryptMigration crypto nonces now) t) ∧
      (Published crypto (purgeMigration crypto) mid ↔
        Published crypto (purgeMigration crypto) t) := by
    simp only [Published, encryptMigration, purgeMigration, encryptRecord, purgeRecord, true_and]
  rw [published.1, published.2, Tables.hashes, db, ← Tables.hashes, encryptRecord] at last
  rw [last]
  simp [and_assoc]

namespace Sample

/-- A row as worker nodes used to cache it. -/
def cached (id : Nat) (hash : String) : User :=
  { id := id, hash := hash, username := "sync-user-" ++ hash, password := legacySyncPlaceholderPassword }

def migrate (db : Db) : Except (RunError UpError) (Tables Store) :=
  runMigrations crypto.sha256 () 0 (registeredMigrations crypto (fun _ => "nonce") 0) ⟨{ db := db }, []⟩

end Sample

/-- A worker's cache of two users: both rows would get the hash of the placeholder, and the
migrations fail. A cache of one user is migrated and loses the hash that its user
authenticates with. -/
theorem placeholder_cache_loses_hashes :
    (∃ reason, Sample.migrate { users := [Sample.cached 1 "aaaaaa", Sample.cached 2 "bbbbbb"] } =
      .error reason) ∧
    ∃ t, Sample.migrate { users := [Sample.cached 1 "aaaaaa"] } = .ok t ∧
      "aaaaaa" ∉ t.hashes := by
  constructor
  · have failed : (Sample.migrate
        { users := [Sample.cached 1 "aaaaaa", Sample.cached 2 "bbbbbb"] }).isOk = false := by
      decide +kernel
    cases ran : Sample.migrate { users := [Sample.cached 1 "aaaaaa", Sample.cached 2 "bbbbbb"] } with
    | error reason => exact ⟨reason, rfl⟩
    | ok t =>
      rw [ran] at failed
      cases failed
  · have found : (Sample.migrate { users := [Sample.cached 1 "aaaaaa"] }).toOption.map Tables.hashes =
        some ["sha224:placeholder-pwd"] := by
      decide +kernel
    cases ran : Sample.migrate { users := [Sample.cached 1 "aaaaaa"] } with
    | error reason =>
      rw [ran] at found
      cases found
    | ok t =>
      rw [ran] at found
      have left : t.hashes = ["sha224:placeholder-pwd"] := Option.some.inj found
      refine ⟨t, rfl, ?_⟩
      rw [left]
      decide

end TrojanGo.Database
