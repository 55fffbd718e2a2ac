import TrojanGo.Database.Users
import TrojanGo.Lib.Table

/-!
# Who may use the service

Four places decide whether a user may use the service. Three of them decide by `entitled`, the
refresh of the SQLite authenticator by `selected`.
-/
namespace TrojanGo.Accounts

open Lib Master Database List

/-! ### The rule -/

/-- The zero time stands for an absent expiry. -/
def expired (now : Time) (u : User) : Bool := ∃ expiry ∈ u.expiryTime, expiry ≠ 0 ∧ expiry < now

/-- A quota that is not positive is none. -/
def exhausted (u : User) : Bool := u.quota > 0 ∧ u.used ≥ u.quota

/-- Enabled, not expired and under quota; a row without a hash is nobody's. -/
def entitled (now : Time) (u : User) : Bool :=
  u.status = 0 ∧ ¬ expired now u ∧ ¬ exhausted u ∧ u.hash ≠ ""

variable {now : Time} {u : User}

theorem entitled_status (allowed : entitled now u = true) :
    u.status = 0 := by
  simp only [entitled, decide_eq_true_eq] at allowed
  exact allowed.1

/-- The rows with status zero. -/
def activeRows (users : List User) : List User := users.filter fun u => u.status = 0

variable {users : List User}

theorem mem_activeRows :
    u ∈ activeRows users ↔ u ∈ users ∧ u.status = 0 := by
  simp [activeRows]

/-! ### Authenticators -/

/-- The users an authenticator admits, each with its IP limit. -/
abbrev Authenticator := Table String Int

namespace Authenticator

def admits (auth : Authenticator) (hash : String) : Bool := (auth.lookup hash).isSome

def hashes (auth : Authenticator) : List String := auth.entries.map Prod.fst

/-- A new user has no IP limit. -/
def addUser (auth : Authenticator) (hash : String) : Except String Authenticator :=
  if auth.admits hash then .error ("hash " ++ hash ++ " is already exist")
  else .ok (auth.insert hash 0)

def delUser (auth : Authenticator) (hash : String) : Except String Authenticator :=
  if auth.admits hash then .ok (auth.erase hash) else .error ("hash " ++ hash ++ " not found")

/-- Where a caller only logs the error, a refused change leaves the authenticator. -/
def attempt (change : Authenticator → Except String Authenticator) (auth : Authenticator) :
    Authenticator :=
  match change auth with
  | .ok changed => changed
  | .error _ => auth

/-- `SetIPLimit` of a user object that `AuthUser` has found. -/
def setIPLimit (auth : Authenticator) (hash : String) (limit : Int) : Authenticator :=
  if auth.admits hash then auth.insert hash limit else auth

variable {auth : Authenticator}

theorem admits_iff {hash : String} :
    auth.admits hash = true ↔ ∃ limit, auth.lookup hash = some limit :=
  Option.isSome_iff_exists

theorem mem_hashes {hash : String} :
    hash ∈ auth.hashes ↔ auth.admits hash = true := by
  rw [admits_iff]
  constructor
  · intro mem
    obtain ⟨⟨key, limit⟩, inside, rfl⟩ := mem_map.mp mem
    exact ⟨limit, Table.lookup_eq_some.mpr inside⟩
  · rintro ⟨limit, found⟩
    exact mem_map.mpr ⟨(hash, limit), Table.lookup_eq_some.mp found, rfl⟩

theorem lookup_attempt_addUser (auth : Authenticator) (hash other : String) :
    (attempt (fun a => a.addUser hash) auth).lookup other =
      if other = hash ∧ auth.lookup hash = none then some 0 else auth.lookup other := by
  unfold attempt addUser
  cases found : auth.lookup hash with
  | some | none => simp [admits, found]

theorem lookup_attempt_delUser (auth : Authenticator) (hash other : String) :
    (attempt (fun a => a.delUser hash) auth).lookup other =
      if other = hash then none else auth.lookup other := by
  unfold attempt delUser
  cases found : auth.lookup hash with
  | some limit => simp [admits, found]
  | none =>
    simp only [admits, found]
    grind

end Authenticator

/-! ### The refresh from the database -/

/-- The rows the loop passes over. -/
def passedOver (now : Time) (u : User) : Bool := u.hash = "" ∨ expired now u ∨ exhausted u

/-- One round of the loop over the active rows. -/
def refreshUser (now : Time) (auth : Authenticator) (u : User) : Except String Authenticator :=
  if passedOver now u then .ok auth
  else if auth.admits u.hash then .ok (auth.setIPLimit u.hash u.ipLimit)
  else (auth.addUser u.hash).map fun added => added.setIPLimit u.hash u.ipLimit

/-- The users found in the authenticator and not among the valid ones are removed; a removal
that fails is logged. -/
def removeStale (valid : List String) (auth : Authenticator) (hash : String) : Authenticator :=
  if hash ∈ valid then auth else Authenticator.attempt (fun a => a.delUser hash) auth

def syncAuthenticatorFromDatabase (now : Time) (users : List User) (auth : Authenticator) :
    Except String Authenticator := do
  let refreshed ← users.foldlM (refreshUser now) auth
  let valid := (users.filter fun u => !passedOver now u).map User.hash
  return refreshed.hashes.foldl (removeStale valid) refreshed

theorem refreshUser_ok (now : Time) (auth : Authenticator) (u : User) :
    ∃ refreshed, refreshUser now auth u = .ok refreshed ∧ ∀ hash, refreshed.lookup hash =
      if passedOver now u = false ∧ hash = u.hash then some u.ipLimit else auth.lookup hash := by
  unfold refreshUser
  by_cases skip : passedOver now u = true
  · rw [if_pos skip]
    exact ⟨auth, rfl, by simp [skip]⟩
  rw [if_neg skip]
  rw [Bool.not_eq_true] at skip
  have stored : ∀ (a : Authenticator) hash, (a.insert u.hash u.ipLimit).lookup hash =
      if passedOver now u = false ∧ hash = u.hash then some u.ipLimit else a.lookup hash := by
    simp [skip]
  by_cases known : auth.admits u.hash = true
  · rw [if_pos known, Authenticator.setIPLimit, if_pos known]
    exact ⟨_, rfl, stored auth⟩
  rw [if_neg known, Authenticator.addUser, if_neg known]
  have added : Authenticator.admits (auth.insert u.hash 0) u.hash = true := by
    simp [Authenticator.admits]
  refine ⟨_, rfl, fun hash => ?_⟩
  simp only [Authenticator.setIPLimit, if_pos added, stored]
  by_cases same : hash = u.hash <;> simp [same, skip]

/-- The loop admits every valid row with its limit and leaves all other users. -/
theorem refreshUsers_ok (index : (users.map User.hash).Nodup) (auth : Authenticator) :
    ∃ refreshed, users.foldlM (refreshUser now) auth = .ok refreshed ∧
      (∀ u ∈ users, passedOver now u = false → refreshed.lookup u.hash = some u.ipLimit) ∧
      ∀ hash, (∀ u ∈ users, passedOver now u = false → u.hash ≠ hash) →
        refreshed.lookup hash = auth.lookup hash := by
  induction users generalizing auth with
  | nil => exact ⟨auth, rfl, by simp, by simp⟩
  | cons first users ih =>
    obtain ⟨new, index⟩ := nodup_cons.mp index
    obtain ⟨mid, stepped, entry⟩ := refreshUser_ok now auth first
    obtain ⟨refreshed, ran, admitted, left⟩ := ih index mid
    refine ⟨refreshed, ?_, ?_, ?_⟩
    · rw [foldlM_cons, stepped]
      exact ran
    · intro u mem valid
      rcases mem_cons.mp mem with rfl | later
      · -- the later rows have other hashes
        rw [left u.hash fun v inside _ same => new (mem_map.mpr ⟨v, inside, same⟩), entry]
        simp [valid]
      · exact admitted u later valid
    · grind

theorem lookup_removeStale (valid hashes : List String) (auth : Authenticator) (hash : String) :
    (hashes.foldl (removeStale valid) auth).lookup hash =
      if hash ∈ hashes ∧ hash ∉ valid then none else auth.lookup hash := by
  induction hashes generalizing auth with
  | nil => simp
  | cons first hashes ih =>
    rw [foldl_cons, ih]
    by_cases kept : first ∈ valid
    · rw [removeStale, if_pos kept]
      by_cases same : hash = first <;> simp [same, kept]
    · rw [removeStale, if_neg kept, Authenticator.lookup_attempt_delUser]
      by_cases same : hash = first <;> simp [same, kept]

theorem passedOver_false (active : u.status = 0) :
    passedOver now u = false ↔ entitled now u = true := by
  simp only [passedOver, entitled, active, decide_eq_false_iff_not, not_or, decide_eq_true_eq,
    true_and, Bool.not_eq_true]
  tauto

/-- A refreshed authenticator admits exactly the entitled rows, each with its limit. -/
theorem syncAuthenticatorFromDatabase_ok (index : (users.map User.hash).Nodup) (now : Time)
    (auth : Authenticator) :
    ∃ refreshed, syncAuthenticatorFromDatabase now (activeRows users) auth = .ok refreshed ∧
      ∀ hash limit, refreshed.lookup hash = some limit ↔
        ∃ u ∈ users, entitled now u = true ∧ u.hash = hash ∧ u.ipLimit = limit := by
  obtain ⟨mid, ran, admitted, left⟩ := @refreshUsers_ok now (activeRows users)
    (index.sublist (filter_sublist.map _)) auth
  let valid := ((activeRows users).filter fun u => !passedOver now u).map User.hash
  refine ⟨mid.hashes.foldl (removeStale valid) mid, ?_, ?_⟩
  · rw [syncAuthenticatorFromDatabase, ran]
    rfl
  intro hash limit
  rw [lookup_removeStale]
  by_cases listed : hash ∈ valid
  · rw [if_neg fun stale => stale.2 listed]
    obtain ⟨u, mem, rfl⟩ := mem_map.mp listed
    obtain ⟨row, passes⟩ := mem_filter.mp mem
    rw [Bool.not_eq_true'] at passes
    obtain ⟨inside, enabled⟩ := mem_activeRows.mp row
    rw [admitted u row passes]
    constructor
    · intro same
      exact ⟨u, inside, (passedOver_false enabled).mp passes, rfl, Option.some.inj same⟩
    · rintro ⟨v, inside', _, same, rfl⟩
      rw [inj_on_of_nodup_map index inside' inside same]
  · constructor
    · intro found
      split at found
      · cases found
      next kept =>
        have known : hash ∈ mid.hashes :=
          Authenticator.mem_hashes.mpr (Authenticator.admits_iff.mpr ⟨limit, found⟩)
        exact absurd ⟨known, listed⟩ kept
    · rintro ⟨u, inside, allowed, rfl, _⟩
      have enabled := entitled_status allowed
      have passes := (passedOver_false enabled).mpr allowed
      exact absurd (mem_map.mpr ⟨u, mem_filter.mpr
        ⟨mem_activeRows.mpr ⟨inside, enabled⟩, by simp [passes]⟩, rfl⟩) listed

theorem syncAuthenticatorFromDatabase_admits (index : (users.map User.hash).Nodup) (now : Time)
    (auth : Authenticator) :
    ∃ refreshed, syncAuthenticatorFromDatabase now (activeRows users) auth = .ok refreshed ∧
      ∀ u ∈ users, refreshed.admits u.hash = entitled now u := by
  obtain ⟨refreshed, ran, spec⟩ := syncAuthenticatorFromDatabase_ok index now auth
  refine ⟨refreshed, ran, ?_⟩
  intro u mem
  rw [Bool.eq_iff_iff, Authenticator.admits_iff]
  constructor
  · rintro ⟨limit, found⟩
    obtain ⟨v, inside, allowed, same, _⟩ := (spec u.hash limit).mp found
    rwa [inj_on_of_nodup_map index inside mem same] at allowed
  · intro allowed
    exact ⟨u.ipLimit, (spec _ _).mpr ⟨u, mem, allowed, rfl, rfl⟩⟩

/-! ### The other decisions -/

/-- The list a worker node receives. -/
def nodeUsers (now : Time) (users : List User) : List String := validHashes now (activeRows users)

/-- Hashes tell rows apart, so a row's hash is listed exactly if the row is selected. -/
theorem hash_mem_filter (index : (users.map User.hash).Nodup) (p : User → Bool) (mem : u ∈ users) :
    u.hash ∈ (users.filter p).map User.hash ↔ p u = true := by
  constructor
  · intro listed
    obtain ⟨v, inside, same⟩ := mem_map.mp listed
    obtain ⟨row, holds⟩ := mem_filter.mp inside
    rwa [inj_on_of_nodup_map index row mem same] at holds
  · intro holds
    exact mem_map.mpr ⟨u, mem_filter.mpr ⟨mem, holds⟩, rfl⟩

theorem nodeUsers_eq (now : Time) (users : List User) :
    nodeUsers now users = (users.filter (entitled now)).map User.hash := by
  rw [nodeUsers, validHashes, activeRows, filter_filter]
  congr 2
  funext u
  rw [Bool.eq_iff_iff]
  simp only [entitled, expired, exhausted, Bool.and_eq_true, decide_eq_true_eq]
  tauto

def userByHash (hash : String) (users : List User) : Option User := users.find? fun u => u.hash = hash

/-- The answer of the Hysteria endpoint for the row it found: quota and usage, or a refusal. -/
def hysteriaVerdict (now : Time) : Option User → Option (Int × Int)
  | none => none
  | some u =>
    if u.status ≠ 0 then none
    else if expired now u then none
    else if exhausted u then none
    else some (u.quota, u.used)

/-- When a decision is taken, and the offsets from UTC in which the server and each row write times
down. -/
structure Clock where
  now : Time
  offset : Time := 0
  expiryOffset : User → Time := fun _ => 0

variable (clock : Clock)

/-- SQLite compares times as texts, such as `2006-01-02 15:04:05-07:00`: what the clocks show comes
first, then the offsets, where a plus is less than a minus. -/
def Clock.ahead (u : User) (expiry : Time) : Bool :=
  let offset := clock.expiryOffset u
  clock.now + clock.offset < expiry + offset ∨ clock.now + clock.offset = expiry + offset ∧
    (0 ≤ clock.offset ∧ offset < 0 ∨
      (0 ≤ clock.offset ↔ 0 ≤ offset) ∧ clock.offset.natAbs < offset.natAbs)

/-- The rows the query of the SQLite authenticator selects. -/
def selected (u : User) : Bool :=
  u.status = 0 ∧ ((∃ expiry ∈ u.expiryTime, clock.ahead u expiry) ∨ u.expiryTime = none)

/-- The refresh of the SQLite authenticator; its changes are not checked for errors. -/
def sqliteRefresh (users : List User) (auth : Authenticator) : Authenticator :=
  let listed := (users.filter (selected clock)).map User.hash
  let current := auth.hashes
  let added := (listed.filter fun hash => hash ∉ current).foldl
    (fun a hash => Authenticator.attempt (fun a => a.addUser hash) a) auth
  (current.filter fun hash => hash ∉ listed).foldl
    (fun a hash => Authenticator.attempt (fun a => a.delUser hash) a) added

theorem hysteriaVerdict_isSome (named : u.hash ≠ "") :
    (hysteriaVerdict now (some u)).isSome = entitled now u := by
  unfold hysteriaVerdict entitled
  by_cases status : u.status = 0 <;> cases late : expired now u <;> cases full : exhausted u <;>
    simp [status, late, full, named]

theorem lookup_addAll (hashes : List String) (auth : Authenticator) (hash : String) :
    (hashes.foldl (fun a h => Authenticator.attempt (fun a => a.addUser h) a) auth).lookup hash =
      if hash ∈ hashes ∧ auth.lookup hash = none then some 0 else auth.lookup hash := by
  induction hashes generalizing auth with
  | nil => simp
  | cons first hashes ih =>
    rw [foldl_cons, ih, Authenticator.lookup_attempt_addUser]
    by_cases same : hash = first
    · subst same
      by_cases absent : auth.lookup hash = none <;> simp [absent]
    · simp [same]

theorem lookup_delAll (hashes : List String) (auth : Authenticator) (hash : String) :
    (hashes.foldl (fun a h => Authenticator.attempt (fun a => a.delUser h) a) auth).lookup hash =
      if hash ∈ hashes then none else auth.lookup hash := by
  induction hashes generalizing auth with
  | nil => simp
  | cons first hashes ih =>
    rw [foldl_cons, ih, Authenticator.lookup_attempt_delUser]
    by_cases same : hash = first <;> simp [same]

/-- After its refresh the SQLite authenticator admits exactly the selected rows. -/
theorem sqliteRefresh_admits (index : (users.map User.hash).Nodup) (clock : Clock)
    (auth : Authenticator) (mem : u ∈ users) :
    (sqliteRefresh clock users auth).admits u.hash = selected clock u := by
  have listed := hash_mem_filter index (selected clock) mem
  have known : u.hash ∈ auth.hashes ↔ auth.lookup u.hash ≠ none := by
    rw [Authenticator.mem_hashes, Authenticator.admits, Option.isSome_iff_ne_none]
  rw [Authenticator.admits, sqliteRefresh, lookup_delAll, lookup_addAll]
  simp only [mem_filter, decide_not, Bool.not_eq_true', decide_eq_false_iff_not, listed, known]
  cases selected clock u <;> cases auth.lookup u.hash <;> simp

/-! ### Whether the decisions coincide -/

/-- All four places take the same decision on the user of this password, whatever the
authenticators held before. -/
def DecisionsAgree (crypto : Crypto) (db : Db) (clock : Clock) (auth sqliteAuth : Authenticator)
    (password : String) : Prop :=
  let hash := crypto.sha224 password
  ∃ refreshed, syncAuthenticatorFromDatabase clock.now (activeRows db.users) auth = .ok refreshed ∧
    (hash ∈ nodeUsers clock.now db.users ↔ refreshed.admits hash) ∧
    (refreshed.admits hash ↔ (hysteriaVerdict clock.now (userByHash hash db.users)).isSome) ∧
    ((hysteriaVerdict clock.now (userByHash hash db.users)).isSome ↔
      (sqliteRefresh clock db.users sqliteAuth).admits hash)

/-- The text of the expiry is not ahead if the quota is used up, and otherwise exactly if the expiry
is past. -/
def textDecides (u : User) : Bool :=
  if exhausted u then ∃ expiry ∈ u.expiryTime, clock.ahead u expiry = false
  else ∀ expiry ∈ u.expiryTime, (clock.ahead u expiry = false ↔ expiry ≠ 0 ∧ expiry < clock.now)

theorem entitled_eq_selected_iff {clock : Clock} (named : u.hash ≠ "") :
    entitled clock.now u = selected clock u ↔ (u.status = 0 → textDecides clock u) := by
  rw [Bool.eq_iff_iff]
  simp only [entitled, selected, textDecides, expired, decide_eq_true_eq, named, ne_eq,
    not_false_eq_true, and_true]
  cases u.expiryTime with
  | none => cases exhausted u <;> simp
  | some expiry =>
    simp only [Option.mem_def, Option.some.injEq, exists_eq_left', forall_eq']
    cases clock.ahead u expiry <;> grind

/-- The four places take the same decision on a user exactly if it is disabled, or the text of its
expiry says what its expiry and its quota say. -/
theorem decisions_agree_iff (crypto : Crypto) (db : Db) (clock : Clock)
    (auth sqliteAuth : Authenticator) {u : User} (member : u ∈ db.users) {password : String}
    (hash : u.hash = crypto.sha224 password) :
    DecisionsAgree crypto db clock auth sqliteAuth password ↔
      (u.status = 0 → textDecides clock u) := by
  have named : u.hash ≠ "" := hash ▸ crypto.sha224_ne_empty password
  obtain ⟨refreshed, ran, admitted⟩ :=
    syncAuthenticatorFromDatabase_admits db.userIndex clock.now auth
  have only : ∀ a, syncAuthenticatorFromDatabase clock.now (activeRows db.users) auth = .ok a →
      a = refreshed := fun a same => Except.ok.inj (same.symm.trans ran)
  rw [← entitled_eq_selected_iff named]
  simp only [DecisionsAgree, ← hash, userByHash, find?_key db.userIndex member,
    hysteriaVerdict_isSome named, sqliteRefresh_admits db.userIndex clock sqliteAuth member,
    nodeUsers_eq, hash_mem_filter db.userIndex (entitled clock.now) member]
  constructor
  · rintro ⟨a, found, _, _, same⟩
    exact Bool.eq_iff_iff.mpr same
  · grind

namespace Sample

/-- The only user of a database, with the password `pw`. -/
def user : User := { id := 1, hash := "sha224:pw", quota := 100, used := 10, expiryTime := some 50 }

def only (u : User) : Db := { users := [u], userIndex := List.nodup_singleton _ }

end Sample

theorem decisions_agree_within_quota :
    DecisionsAgree Database.Sample.crypto (Sample.only Sample.user) { now := 20 } {} {} "pw" :=
  (decisions_agree_iff Database.Sample.crypto (Sample.only Sample.user) { now := 20 } {} {}
    mem_cons_self rfl).mpr (by decide)

/-- A user over its quota is off the node list, and the SQLite authenticator admits it. A user
with the zero time as expiry is on the node list, and the SQLite authenticator refuses it. A user
whose expiry is past is admitted if it is written in a zone further east. -/
theorem sqlite_decides_differently :
    (nodeUsers 20 [{ Sample.user with used := 100 }] = [] ∧
      (sqliteRefresh { now := 20 } [{ Sample.user with used := 100 }] {}).admits "sha224:pw") ∧
    (nodeUsers 20 [{ Sample.user with expiryTime := some 0 }] = ["sha224:pw"] ∧
      ¬ (sqliteRefresh { now := 20 } [{ Sample.user with expiryTime := some 0 }] {}).admits
        "sha224:pw") ∧
    nodeUsers 51 [Sample.user] = [] ∧
      (sqliteRefresh { now := 51, expiryOffset := fun _ => 8 } [Sample.user] {}).admits
        "sha224:pw" := by
  decide +kernel

end TrojanGo.Accounts
