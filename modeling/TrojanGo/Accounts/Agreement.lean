import TrojanGo.Accounts.Rows
import TrojanGo.Lib.Sequential

/-!
# Authenticators and the database

The handlers tell attached authenticators of single hashes, not of limits. The argument is about
sets of entitlements, the pairs of a hash and an IP limit that an authenticator should hold: a new
row adds its own, a deleted row takes its own away, and an update does both.
-/
namespace TrojanGo.Accounts

open Lib Master Database Prog Authenticator List

/-! ### Entitlements -/

/-- The hashes to be admitted, each with its IP limit. -/
def entitlements (now : Time) (users : List User) : List (String × Int) :=
  (users.filter (entitled now)).map fun u => (u.hash, u.ipLimit)

variable {now : Time}

theorem mem_entitlements {users : List User} {hash : String} {limit : Int} :
    (hash, limit) ∈ entitlements now users ↔
      ∃ u ∈ users, entitled now u = true ∧ u.hash = hash ∧ u.ipLimit = limit := by
  simp only [entitlements, mem_map, mem_filter, Prod.mk.injEq, and_assoc]

/-- The authenticator admits exactly these entitlements. -/
def Admits (auth : Authenticator) (entries : List (String × Int)) : Prop :=
  ∀ hash limit, auth.lookup hash = some limit ↔ (hash, limit) ∈ entries

/-- Whether an authenticator that knows only the hash of an enabled row treats it rightly. -/
def unlimited (now : Time) (u : User) : Bool := ¬ expired now u ∧ ¬ exhausted u ∧ u.ipLimit = 0

theorem entitled_hash {u : User} (allowed : entitled now u = true) : u.hash ≠ "" := by
  grind [entitled]

/-- Tell an authenticator of users; an empty hash is passed over. -/
def addAll (hashes : List String) (auth : Authenticator) : Authenticator :=
  (hashes.filter fun hash => hash ≠ "").foldl
    (fun a hash => attempt (fun a => a.addUser hash) a) auth

/-- Tell an authenticator to forget a user. -/
def forget (hash : String) (auth : Authenticator) : Authenticator :=
  if hash ≠ "" then attempt (fun a => a.delUser hash) auth else auth

variable {user : User}

section Sets

variable {now : Time} {users rows : List User} {auth : Authenticator}

section

variable (admits : Admits auth (entitlements now users))

include admits

/-- A hash that no row of the table has is not admitted. -/
theorem Admits.absent {hash : String} (unused : hash ∉ users.map User.hash) :
    auth.lookup hash = none := by
  rw [Option.eq_none_iff_forall_ne_some]
  intro limit found
  obtain ⟨u, mem, -, rfl, -⟩ := mem_entitlements.mp ((admits hash limit).mp found)
  exact unused (mem_map_of_mem mem)

/-- New rows, of which the authenticator is told the enabled ones. -/
theorem Admits.add (index : ((rows ++ users).map User.hash).Nodup)
    (free : ∀ u ∈ rows, u.status = 0 → unlimited now u = true) {hashes : List String}
    (told : ∀ hash, hash ∈ hashes ↔ ∃ u ∈ rows, u.status = 0 ∧ u.hash = hash) :
    Admits (addAll hashes auth) (entitlements now (rows ++ users)) := by
  rw [map_append] at index
  obtain ⟨-, -, apart⟩ := nodup_append.mp index
  have zero : ∀ u ∈ rows, entitled now u = true → u.ipLimit = 0 := by
    grind [unlimited, entitled_status]
  intro hash limit
  have old := admits hash limit
  have absent := @Admits.absent _ _ _ admits hash
  rw [mem_entitlements] at old
  rw [addAll, lookup_addAll, mem_entitlements]
  simp only [mem_filter, decide_eq_true_eq, mem_append, or_and_right, exists_or]
  by_cases new : (hash ∈ hashes ∧ hash ≠ "") ∧ auth.lookup hash = none
  · -- a new user
    rw [if_pos new]
    grind [unlimited, entitled]
  · -- what is told here concerns other hashes
    rw [if_neg new, old]
    grind [entitled_status, entitled_hash]

/-- A row that is deleted, of which the authenticator is told. -/
theorem Admits.remove (index : (users.map User.hash).Nodup) (keyed : Keyed users)
    (mem : user ∈ users) :
    Admits (forget user.hash auth) (entitlements now (users.filter fun u => u.id ≠ user.id)) := by
  have others : ∀ u ∈ users, u.hash ≠ user.hash → u.id ≠ user.id := by
    intro u inside different same
    exact different (congrArg User.hash (inj_on_of_nodup_map keyed inside mem same))
  have lookup : ∀ hash, (forget user.hash auth).lookup hash =
      if hash = user.hash then none else auth.lookup hash := by
    intro hash
    unfold forget
    split
    · rw [lookup_attempt_delUser]
    next empty =>
      -- no entitled row has the empty hash
      have unnamed : hash = user.hash → auth.lookup hash = none := by
        intro same
        rw [Option.eq_none_iff_forall_ne_some]
        intro limit found
        obtain ⟨u, -, allowed, equal, -⟩ := mem_entitlements.mp ((admits hash limit).mp found)
        exact empty (same ▸ equal ▸ entitled_hash allowed)
      grind
  intro hash limit
  have old := admits hash limit
  rw [mem_entitlements] at old
  rw [lookup, mem_entitlements]
  simp only [mem_filter, decide_eq_true_eq]
  split
  next same =>
    have unique : ∀ u ∈ users, u.hash = hash → u.id = user.id := by
      intro u inside equal
      rw [inj_on_of_nodup_map index inside mem (equal.trans same)]
    grind
  next different => grind

end

/-- With a primary key, an update replaces one row by another. -/
theorem onUser_perm (keyed : Keyed users) (mem : user ∈ users) (f : User → User) :
    (onUser user.id f users).Perm (f user :: users.filter fun u => u.id ≠ user.id) := by
  -- the rows before and after it have other ids, so neither side touches them
  obtain ⟨before, after, rfl⟩ := append_of_mem mem
  simp only [Keyed, map_append, map_cons, nodup_append, nodup_cons] at keyed
  obtain ⟨-, ⟨unusedAfter, -⟩, apart⟩ := keyed
  have unusedBefore : user.id ∉ before.map User.id :=
    fun used => apart _ used _ mem_cons_self rfl
  have rest : ∀ {part : List User}, user.id ∉ part.map User.id →
      part.filter (fun u => u.id ≠ user.id) = part := by
    intro part unused
    exact filter_eq_self.mpr (by grind)
  have left : onUser user.id f (before ++ user :: after) = before ++ f user :: after := by
    rw [onUser, map_append, map_cons, if_pos rfl]
    rw [show before.map _ = before from onUser_eq_self unusedBefore,
      show after.map _ = after from onUser_eq_self unusedAfter]
  rw [left, filter_append, filter_cons_of_neg (by simp), rest unusedBefore,
    rest unusedAfter]
  exact perm_middle

theorem Admits.congr {entries entries' : List (String × Int)} (admits : Admits auth entries)
    (same : ∀ entry, entry ∈ entries' ↔ entry ∈ entries) : Admits auth entries' :=
  fun hash limit => (admits hash limit).trans (same (hash, limit)).symm

/-- The order of the rows does not matter. -/
theorem Admits.perm {users' : List User} (admits : Admits auth (entitlements now users))
    (perm : users'.Perm users) : Admits auth (entitlements now users') :=
  admits.congr fun _ => ((perm.filter _).map _).mem_iff

end Sets

/-! ### The condition -/

/-- A failure that is reported has not been committed. -/
def Faithful (fate : Fate) : Prop := fate.ok = true ∨ fate.committed = false

variable (env : Env)

/-- The statement leaves the entitlements. -/
def Neutral (fate : Fate) (w : World) (op : Op) : Prop :=
  ∀ done ∈ exec env fate w op,
    (∀ entry ∈ entitlements done.2.clock done.2.users, entry ∈ entitlements w.clock w.users) ∧
    ∀ entry ∈ entitlements w.clock w.users, entry ∈ entitlements done.2.clock done.2.users

/-- What agreement needs of a statement. A handler that goes on to tell the authenticators of
rows stores no enabled row that is expired, exhausted or limited in its addresses, and knows
whether it has stored it; what it tells them first, it then does. Every other statement leaves
the entitlements. -/
def Settles (fate : Fate) (w : World) : Op → Prop
  | .write (.create body) =>
    Faithful fate ∧ (body.status = 0 → unlimited w.clock (body.row 0) = true)
  | .write (.update id columns password) =>
    Faithful fate ∧ ∀ u ∈ w.users, u.id = id →
      let row := updated env.toCrypto (fate.nonces id) columns password u
      row.status = 0 → unlimited w.clock row = true
  | .write (.restore entries) =>
    Faithful fate ∧ ∀ entry ∈ entries, entry.status = 0 → unlimited w.clock (entry.row 0) = true
  | .write (.delete _) | .userByID _ | .activeUsers => fate.ok = true
  | .write (.setPassword _ _) | .now | .userByHash _ _ | .attached | .addUser _ | .delUser _
  | .attach _ | .refresh _ _ _ | .reply _ _ => True
  | op => Neutral env fate w op

instance (fate : Fate) (w : World) (op : Op) : Decidable (Neutral env fate w op) :=
  inferInstanceAs (Decidable (∀ done ∈ exec env fate w op, _ ∧ _))

instance (fate : Fate) (w : World) : (op : Op) → Decidable (Settles env fate w op)
  | .write (.create _) | .write (.update _ _ _) | .write (.restore _) =>
    inferInstanceAs (Decidable ((_ ∨ _) ∧ _))
  | .write (.delete _) | .userByID _ | .activeUsers => inferInstanceAs (Decidable (_ = true))
  | .write (.setPassword _ _) | .now | .userByHash _ _ | .attached | .addUser _ | .delUser _
  | .attach _ | .refresh _ _ _ | .reply _ _ => isTrue trivial
  | .master _ | .wait _ | .write (.edit _ _) | .write .resetTraffic | .write (.embeddedTraffic _)
  | .write (.cacheUsers _) | .write .encryptCredentials | .write .purgePlaceholders =>
    inferInstanceAs (Decidable (Neutral env fate w _))

/-- Every attached authenticator admits exactly the entitled users. -/
structure Agrees (w : World) : Prop where
  keyed : Keyed w.users
  admits : ∀ auth ∈ w.auths, Admits auth (entitlements w.clock w.users)

/-- From this state the handler establishes the postcondition, if its statements settle. -/
abbrev Does {α : Type} (handler : Handler α) (post : α → World → Prop) (w : World) : Prop :=
  wp (restrict (exec env) (Settles env)) (.alone (fun _ _ => True) fun _ => True)
    handler post w

/-- From this state the handler leaves the authenticators in agreement. -/
abbrev Keeps {α : Type} (handler : Handler α) (w : World) : Prop :=
  Does env handler (fun _ => Agrees) w

section Rules

variable {env : Env} {w w' : World} {op : Op} {id : Nat} {fate : Fate}

theorem does_step {α : Type} {next : Res op → Handler α} {post : α → World → Prop}
    (holds : ∀ fate result w', Settles env fate w op → exec env fate w op = some (result, w') →
      Does env (next result) post w') : Does env (ask op >>= next) post w := by
  apply wp_step
  intro fate result w' _ done
  obtain ⟨settles, ran⟩ := restrict_eq_some done
  exact ⟨trivial, holds fate result w' settles ran⟩

theorem does_last {post : Res op → World → Prop}
    (holds : ∀ fate result w', Settles env fate w op → exec env fate w op = some (result, w') →
      post result w') : Does env (ask op) post w := by
  apply wp_last
  intro fate result w' _ done
  obtain ⟨settles, ran⟩ := restrict_eq_some done
  exact ⟨trivial, holds fate result w' settles ran⟩

section Writes

variable {write : Write} {result : Except Failure write.Out}
  (executed : exec env fate w (.write write) = some (result, w'))

include executed

/-- A write that reports what it did. -/
theorem submit_faithful (faithful : Faithful fate) :
    (∃ failure, result = .error failure ∧ w' = w) ∨
      ∃ value db, result = .ok value ∧ write.tx env fate w.db = .ok (value, db) ∧
        w' = w.withDb db := by
  have cases := write_cases executed
  grind [Faithful]

theorem submit_auths : w'.auths = w.auths ∧ w'.clock = w.clock := by
  have cases := write_cases executed
  grind [World.withDb]

end Writes

/-! ### Handlers that tell the authenticators nothing -/

/-- The statements after which no handler tells the authenticators anything. -/
def Silent : Op → Prop
  | .write (.create _) | .write (.setPassword _ _) | .write (.delete _) | .write (.update _ _ _)
  | .write (.restore _) | .addUser _ | .delUser _ | .attach _ | .refresh _ _ _ => False
  | _ => True

theorem Agrees.neutral {result : Res op} (agrees : Agrees w) (settles : Neutral env fate w op)
    (done : exec env fate w op = some (result, w')) (auths : w'.auths = w.auths) : Agrees w' := by
  obtain ⟨fewer, more⟩ := settles _ done
  refine ⟨exec_keyed done agrees.keyed, fun auth mem => ?_⟩
  exact (agrees.admits auth (auths ▸ mem)).congr fun entry => ⟨fewer entry, more entry⟩

theorem silent_agrees {result : Res op} (silent : Silent op) (settles : Settles env fate w op)
    (executed : exec env fate w op = some (result, w')) (agrees : Agrees w) : Agrees w' := by
  cases op with
  | master op =>
    refine agrees.neutral settles executed ?_
    obtain ⟨done, -, same⟩ := Option.map_eq_some_iff.mp executed
    cases same
    rfl
  | wait duration =>
    refine agrees.neutral settles executed ?_
    cases executed
    rfl
  | write write =>
    cases write with
    | create | setPassword | delete | update | restore => cases silent
    | edit | resetTraffic | embeddedTraffic | cacheUsers | encryptCredentials
    | purgePlaceholders => exact agrees.neutral settles executed (submit_auths executed).1
  | addUser | delUser | attach | refresh => cases silent
  | now | userByHash | userByID | activeUsers | attached | reply =>
    cases executed
    exact ⟨agrees.keyed, agrees.admits⟩

theorem silent_does {α : Type} {handler : Handler α} (only : handler.Only Silent)
    (agrees : Agrees w) : Keeps env handler w := by
  refine wp_only only ?_ agrees ?_
  · intro w w' same _ holds
    cases same
    exact holds
  · intro w op _ holds _ silent fate result w' done
    obtain ⟨settles, ran⟩ := restrict_eq_some done
    exact ⟨trivial, trivial, silent_agrees silent settles ran holds⟩

theorem reply_does {request : Request} {answer : Reply} (agrees : Agrees w) :
    Keeps env (reply request answer) w :=
  silent_does (.ask trivial) agrees

/-! ### Handlers that tell the authenticators of a user -/

/-- The same change to every attached authenticator. -/
def World.tell (w : World) (f : Authenticator → Authenticator) : World :=
  { w with auths := w.auths.map f }

theorem World.tell_id (w : World) {f : Authenticator → Authenticator} (same : ∀ a, f a = a) :
    w.tell f = w := by
  unfold World.tell
  rw [show f = id from funext same, map_id]

theorem addAll_nil (auth : Authenticator) : addAll [] auth = auth := rfl

theorem syncAuthAddUser_does (hash : String) :
    Does env (syncAuthAddUser hash) (fun _ w' => w' = w.tell (addAll [hash])) w := by
  unfold syncAuthAddUser
  split
  next named =>
    apply does_last
    intro fate result w' _ done
    cases done
    simp [World.tell, addAll, named]
  next empty => exact wp_done (w.tell_id (by simp [addAll, empty])).symm

theorem syncRestored_does (hashes : List String) :
    Does env (syncRestored hashes) (fun _ w' => w' = w.tell (addAll hashes)) w := by
  induction hashes generalizing w with
  | nil =>
    apply wp_done
    exact (w.tell_id addAll_nil).symm
  | cons hash hashes ih =>
    refine wp_then (syncAuthAddUser_does hash) ?_
    rintro _ _ _ rfl
    refine wp_mono ?_ ih
    rintro _ _ _ rfl
    simp only [World.tell, map_map]
    congr 2
    funext auth
    by_cases named : hash ≠ "" <;> simp [addAll, named]

theorem syncAuthDelUser_does (hash : String) :
    Does env (syncAuthDelUser hash) (fun _ w' => w' = w.tell (forget hash)) w := by
  unfold syncAuthDelUser
  split
  next named =>
    apply does_last
    intro fate result w' _ done
    cases done
    simp [World.tell, forget, named]
  next empty => exact wp_done (w.tell_id fun _ => if_neg empty).symm

/-- Rows were added; the authenticators still know only the old ones. -/
structure Behind (w : World) (old rows : List User) : Prop where
  keyed : Keyed w.users
  perm : w.users.Perm (rows ++ old)
  free : ∀ u ∈ rows, u.status = 0 → unlimited w.clock u = true
  admits : ∀ auth ∈ w.auths, Admits auth (entitlements w.clock old)

variable {old : List User}

/-- Once they are told of the enabled ones, they agree again. -/
theorem Behind.tell {rows : List User} (behind : Behind w old rows) {hashes : List String}
    (told : ∀ hash, hash ∈ hashes ↔ ∃ u ∈ rows, u.status = 0 ∧ u.hash = hash) :
    Agrees (w.tell (addAll hashes)) := by
  refine ⟨behind.keyed, fun auth mem => ?_⟩
  obtain ⟨before, inside, rfl⟩ := mem_map.mp mem
  have index : ((rows ++ old).map User.hash).Nodup :=
    (behind.perm.map User.hash).nodup_iff.mp w.db.userIndex
  exact ((behind.admits before inside).add index behind.free told).perm behind.perm

theorem Behind.tell_enabled {row : User} (behind : Behind w old [row]) (enabled : row.status = 0) :
    Agrees (w.tell (addAll [row.hash])) := by
  apply behind.tell
  intro hash
  simp [enabled, eq_comm]

theorem Behind.tell_nobody {row : User} (behind : Behind w old [row]) (disabled : row.status ≠ 0) :
    Agrees w := by
  have told : Agrees (w.tell (addAll [])) := behind.tell (by simp [disabled])
  rwa [w.tell_id addAll_nil] at told

theorem Agrees.of_same (agrees : Agrees w) (users : w'.users = w.users) (auths : w'.auths = w.auths)
    (clock : w'.clock = w.clock) : Agrees w' := by
  refine ⟨users ▸ agrees.keyed, ?_⟩
  rw [users, auths, clock]
  exact agrees.admits

/-- A deletion that settles has been made. -/
theorem delete_users {result : Except Failure Unit}
    (settles : Settles env fate w (.write (.delete id)))
    (executed : exec env fate w (.write (.delete id)) = some (result, w')) :
    w'.users = w.users.filter fun u => u.id ≠ id := by
  have done : w.submit fate (deleteUser id) = (result, w') := Option.some.inj executed
  have ok : fate.ok = true := settles
  simp only [World.submit, deleteUser, ok, if_true] at done
  cases done
  rfl

/-- A password that is not stored leaves the rows, or its row is changed nevertheless. -/
theorem setPassword_users {password : String} {result : Except Failure Unit}
    (executed : exec env fate w (.write (.setPassword id password)) = some (result, w')) :
    ((∃ failure, result = .error failure) ∧ w'.users = w.users) ∨
      w'.users = onUser id (withPassword env.toCrypto (fate.nonces id) password) w.users := by
  rcases write_cases executed with ⟨failure, rfl, rfl⟩ | ⟨value, db, ran, rfl, -⟩
  · exact .inl ⟨⟨failure, rfl⟩, rfl⟩
  · exact .inr (setUserPassword_ok ran).1

/-- The row exists before its password is stored. If that fails, the row is deleted again. -/
theorem createWithPassword_does (request : Request) (user : UserBody) (agrees : Agrees w) :
    Keeps env (createWithPassword request user (env.sha224 user.password)) w := by
  apply does_step
  intro fate result w₁ settles created
  obtain ⟨faithful, free⟩ := settles
  rcases submit_faithful created faithful with ⟨failure, rfl, rfl⟩ | ⟨row, db, rfl, ran, rfl⟩
  · exact reply_does agrees
  obtain ⟨rows, shape, fresh⟩ := createUser_ok ran
  apply does_step
  intro fate' result' w₂ _ stored
  obtain ⟨auths, clock⟩ := submit_auths stored
  -- with or without the password, there is one row more than before
  have one : ∃ row' : User, w₂.users = row' :: w.users ∧ row'.id = row.id ∧
      ((∃ failure, result' = .error failure) ∨ row'.status = row.status ∧
        row'.hash = env.sha224 user.password ∧
        unlimited w.clock row' = unlimited w.clock row) := by
    rcases setPassword_users stored with ⟨failed, same⟩ | changed
    · exact ⟨row, same.trans rows, rfl, .inl failed⟩
    · refine ⟨withPassword env.toCrypto (fate'.nonces row.id) user.password row,
        changed.trans ?_, rfl, .inr ⟨rfl, rfl, rfl⟩⟩
      show onUser row.id _ db.users = _
      rw [rows, onUser_cons_self fresh]
  obtain ⟨row', users, id, stored⟩ := one
  cases result' with
  | error failure =>
    -- the handler takes the row back, of which nobody has been told
    apply does_step
    intro fate'' result'' w₃ settles deleted
    obtain ⟨auths', clock'⟩ := submit_auths deleted
    apply reply_does
    refine agrees.of_same ?_ (auths'.trans auths) (clock'.trans clock)
    rw [delete_users settles deleted, users, filter_cons_of_neg (by simp [id])]
    apply filter_eq_self.mpr
    intro u mem
    exact decide_eq_true fun same => fresh (mem_map.mpr ⟨u, mem, same⟩)
  | ok done =>
    rcases stored with ⟨failure, never⟩ | ⟨status, hash, alike⟩
    · cases never
    have behind : Behind w₂ w.users [row'] := {
      keyed := by
        rw [users]
        exact agrees.keyed.cons (id ▸ fresh)
      perm := by rw [users]; rfl
      free := by
        intro u mem enabled
        obtain rfl := mem_singleton.mp mem
        rw [clock]
        exact alike.trans (shape ▸ free ((congrArg User.status shape).symm.trans
          (status.symm.trans enabled)))
      admits := by
        rw [auths, clock]
        exact agrees.admits }
    have sameHash : row.hash = row'.hash := by rw [hash, shape]; rfl
    dsimp only
    split
    next enabled =>
      refine wp_then (syncAuthAddUser_does row.hash) ?_
      rintro _ _ _ rfl
      apply reply_does
      rw [sameHash]
      exact behind.tell_enabled (status.trans enabled)
    next disabled =>
      apply reply_does
      exact behind.tell_nobody fun enabled => disabled (status.symm.trans enabled)

theorem handleAddUser_does (body : Option UserBody) (agrees : Agrees w) :
    Keeps env (handleAddUser env body) w := by
  unfold handleAddUser
  cases body with
  | none => exact reply_does agrees
  | some user =>
    dsimp only
    split
    · exact reply_does agrees
    apply does_step
    intro fate found w' _ done
    cases done
    split
    · exact reply_does agrees
    · exact reply_does agrees
    · exact createWithPassword_does _ user agrees

/-- A lookup by id that settles finds the row, if there is one. -/
theorem userByID_found {result : Option User} (settles : Settles env fate w (.userByID id))
    (done : exec env fate w (.userByID id) = some (result, w')) :
    w' = w ∧ result = w.users.find? fun u => u.id = id := by
  have ok : fate.ok = true := settles
  simp only [exec, ok, if_true] at done
  cases done
  exact ⟨rfl, rfl⟩

/-- After an update the authenticators forget the old row and are told of the new one. -/
theorem syncUpdatedUser_does {w₀ : World} {f : User → User} (agrees : Agrees w₀)
    (mem : user ∈ w₀.users) (keeps : ∀ u, (f u).id = u.id)
    (free : (f user).status = 0 → unlimited w₀.clock (f user) = true)
    (users : w.users = onUser user.id f w₀.users) (auths : w.auths = w₀.auths)
    (clock : w.clock = w₀.clock) :
    Keeps env (syncUpdatedUser user.id user.hash) w := by
  have keyed : Keyed w.users := users ▸ agrees.keyed.onUser user.id keeps
  have perm : w.users.Perm (f user :: w₀.users.filter fun u => u.id ≠ user.id) :=
    users ▸ onUser_perm agrees.keyed mem f
  apply does_step
  intro fate attached w' _ done
  cases done
  -- without authenticators the handler does not read the row back
  cases none : w.auths.isEmpty with
  | true =>
    apply wp_done
    exact ⟨keyed, by simp [isEmpty_iff.mp none]⟩
  | false =>
    refine wp_then (syncAuthDelUser_does user.hash) ?_
    rintro _ _ _ rfl
    have behind : Behind (w.tell (forget user.hash)) (w₀.users.filter fun u => u.id ≠ user.id)
        [f user] := {
      keyed := keyed
      perm := perm
      free := by
        intro u inside enabled
        obtain rfl := mem_singleton.mp inside
        exact clock.symm ▸ free enabled
      admits := by
        intro auth inside
        obtain ⟨before, old, rfl⟩ := mem_map.mp inside
        rw [auths] at old
        exact clock.symm ▸ (agrees.admits before old).remove w₀.db.userIndex agrees.keyed mem }
    apply does_step
    intro fate' found w' settles done
    obtain ⟨rfl, rfl⟩ := userByID_found settles done
    -- the row that is read back is the updated one
    have inside : f user ∈ w.users := perm.mem_iff.mpr mem_cons_self
    have back : (w.tell (forget user.hash)).users.find? (fun u => u.id = user.id) =
        some (f user) := keeps user ▸ find?_key keyed inside
    rw [back]
    dsimp only
    split
    next enabled =>
      refine wp_mono ?_ (syncAuthAddUser_does (f user).hash)
      rintro _ _ _ rfl
      exact behind.tell_enabled enabled
    next disabled => exact wp_done (behind.tell_nobody disabled)

theorem commitUpdate_does (request : Request) (mem : user ∈ w.users) (columns : UserEdit)
    (password : Option String) (agrees : Agrees w) :
    Keeps env (commitUpdate request user columns password) w := by
  apply does_step
  intro fate result w' settles executed
  obtain ⟨faithful, free⟩ := settles
  rcases submit_faithful executed faithful with ⟨failure, rfl, rfl⟩ | ⟨done, db, rfl, ran, rfl⟩
  · exact reply_does agrees
  have rows := updateUser_ok ran
  have synced : Keeps env (syncUpdatedUser user.id user.hash) (w.withDb db) :=
    syncUpdatedUser_does agrees mem
      (updated_id env.toCrypto (fate.nonces user.id) columns password) (free user mem rfl)
      rows rfl rfl
  refine wp_then synced ?_
  intro _ w' _ agrees'
  exact reply_does agrees'

theorem passwordConflict_does (id : Nat) (password : String) :
    Does env (passwordConflict env id password) (fun _ w' => w' = w) w := by
  unfold passwordConflict
  split
  · exact wp_done rfl
  · apply does_step
    intro fate found w' _ done
    cases done
    split <;> exact wp_done rfl

theorem handleUpdateUser_does (id : Nat) (body : Except String UpdateBody) (agrees : Agrees w) :
    Keeps env (handleUpdateUser env id body) w := by
  unfold handleUpdateUser
  cases body with
  | error reason => exact reply_does agrees
  | ok update =>
    apply does_step
    intro fate found w' settles done
    obtain ⟨rfl, rfl⟩ := userByID_found settles done
    split
    · exact reply_does agrees
    next user found =>
      have mem := mem_of_find?_eq_some found
      split
      · exact reply_does agrees
      refine wp_then (passwordConflict_does id update.password) ?_
      rintro conflict _ _ rfl
      cases conflict with
      | some answer => exact reply_does agrees
      | none =>
        apply does_step
        intro fate' now w' _ done
        cases done
        split
        · exact reply_does agrees
        · exact commitUpdate_does _ mem _ _ agrees

/-- The authenticators forget the user first; the deletion must then succeed. -/
theorem handleDeleteUser_does (id : Nat) (agrees : Agrees w) :
    Keeps env (handleDeleteUser id) w := by
  apply does_step
  intro fate found w settles done
  obtain ⟨rfl, rfl⟩ := userByID_found settles done
  split
  · exact reply_does agrees
  next user found =>
    have mem := mem_of_find?_eq_some found
    refine wp_then (syncAuthDelUser_does user.hash) ?_
    rintro _ _ _ rfl
    apply does_step
    intro fate' result w' settles' done'
    obtain ⟨auths, clock⟩ := submit_auths done'
    have rows := delete_users settles' done'
    have agrees' : Agrees w' := by
      constructor
      · rw [rows]
        exact agrees.keyed.filter _
      · rw [rows, auths, clock]
        intro auth inside
        obtain ⟨before, old, rfl⟩ := mem_map.mp inside
        exact (agrees.admits before old).remove w.db.userIndex agrees.keyed mem
    split <;> exact reply_does agrees'

theorem handleRestore_does (backup : Option (List UserBody)) (agrees : Agrees w) :
    Keeps env (handleRestore backup) w := by
  unfold handleRestore
  cases backup with
  | none => exact reply_does agrees
  | some entries =>
    apply does_step
    intro fate result w' settles executed
    have keyed := exec_keyed executed agrees.keyed
    obtain ⟨faithful, free⟩ := settles
    rcases submit_faithful executed faithful with ⟨failure, rfl, rfl⟩ | ⟨done, db, rfl, ran, rfl⟩
    · exact reply_does agrees
    obtain ⟨rows, left, adds, -, -, told⟩ := restoreUsers_ok ran
    have behind : Behind (w.withDb db) w.users rows := {
      keyed := keyed
      perm := .of_eq left
      free := by
        intro u mem enabled
        obtain ⟨entry, inside, shape, -⟩ := adds.absent u mem
        have alike : u.status = entry.status ∧
            unlimited w.clock u = unlimited w.clock (entry.row 0) := by
          rw [shape, restored]
          split <;> exact ⟨rfl, rfl⟩
        exact alike.2.trans (free entry inside (alike.1.symm.trans enabled))
      admits := agrees.admits }
    refine wp_then (syncRestored_does done.1) ?_
    rintro _ _ _ rfl
    exact reply_does (behind.tell told)

/-- `SetAuth` attaches the authenticator at the end of the list and refreshes it there. -/
theorem setAuth_does (auth : Authenticator) (agrees : Agrees w) :
    Keeps env (setAuth auth) w := by
  apply does_step
  intro fate index w₁ _ attached
  cases attached
  apply does_step
  intro fate found w₂ settles read
  have ok : fate.ok = true := settles
  simp only [exec, ok, if_true] at read
  cases read
  apply does_step
  intro fate now w₃ _ asked
  cases asked
  apply does_last
  intro fate result w₄ _ refreshed
  cases refreshed
  refine ⟨agrees.keyed, ?_⟩
  obtain ⟨loaded, ran, admits⟩ := syncAuthenticatorFromDatabase_ok w.db.userIndex w.clock auth
  intro other inside
  simp only [modify_eq_take_drop, take_left, drop_left, modifyHead_cons,
    mem_append, mem_singleton] at inside
  -- only the authenticator at the end of the list is refreshed
  rcases inside with old | rfl
  · exact agrees.admits other old
  · rw [attempt, ran]
    intro hash limit
    rw [mem_entitlements]
    exact admits hash limit

/-! ### Sequences of calls -/

theorem handle_does (request : Request) (agrees : Agrees w) :
    Keeps env (handle env request) w := by
  cases request with
  | add body => exact handleAddUser_does body agrees
  | update id body => exact handleUpdateUser_does id body agrees
  | delete id => exact handleDeleteUser_does id agrees
  | updateQuota id quota =>
    exact silent_does (handleUpdateQuota_only (fun _ _ => trivial) fun _ _ => trivial) agrees
  | clearTraffic | cancelExpire =>
    exact silent_does (editRow_only (fun _ _ => trivial) trivial) agrees
  | setExpire id days =>
    exact silent_does (handleSetExpire_only (fun _ _ => trivial) trivial fun _ => trivial) agrees
  | restore backup => exact handleRestore_does backup agrees
  | hysteriaAuth fields =>
    exact silent_does (handleHysteriaAuth_only (fun _ _ => trivial) trivial fun _ => trivial) agrees

theorem body_does (call : Call) (agrees : Agrees w) :
    Keeps env (body env call) w := by
  cases call with
  | master call => exact silent_does (only_embed (fun _ => trivial) _) agrees
  | request request => exact handle_does request agrees
  | setAuth auth => exact setAuth_does auth agrees
  | embeddedTraffic | resetTraffic | cacheUsers =>
    exact silent_does (background_only trivial) agrees
  | migrateCredentials => exact silent_does (migrateCredentials_only trivial trivial) agrees
  | wait duration => exact silent_does (.ask trivial) agrees

end Rules

/-- The programs of a sequence of calls, each with the fates of its statements. -/
def jobs (env : Env) (calls : List (Call × List Fate)) : List (Handler Unit × List Fate) :=
  calls.map fun call => (body env call.1, call.2)

/-- After every sequence of calls whose statements settle, every attached authenticator admits
exactly the hashes of the users that are enabled, not expired and under quota, each with its
stored IP limit. -/
theorem authenticators_agree (env : Env) (db : Db) (keyed : Keyed db.users)
    (calls : List (Call × List Fate)) (w : World)
    (settles : InTurnFares (exec env) (Settles env) (jobs env calls) (World.start db))
    (ran : inTurn (exec env) (jobs env calls) (World.start db) = some w) :
    ∀ auth ∈ w.auths, ∀ hash limit, auth.lookup hash = some limit ↔
      ∃ u ∈ w.users, entitled w.clock u = true ∧ u.hash = hash ∧ u.ipLimit = limit := by
  have start : Agrees (World.start db) := ⟨keyed, fun auth never => absurd never not_mem_nil⟩
  have agrees : Agrees w := by
    refine inTurn_sound ?_ start settles ran
    intro job mem w agrees
    obtain ⟨call, -, rfl⟩ := mem_map.mp mem
    exact body_does call.1 agrees
  intro auth mem hash limit
  exact (agrees.admits auth mem hash limit).trans mem_entitlements

namespace Sample

/-- Statements that all succeed. -/
def smoothly (count : Nat) : List Fate := List.replicate count {}

/-- A user is created under an attached authenticator, gets another password and is joined by
two users from a backup, one of them disabled. -/
def renewals : List (Call × List Fate) :=
  [(.setAuth {}, smoothly 4),
   (.request (.add (some { username := "ann", password := "old" })), smoothly 5),
   (.request (.update 1 (.ok { password := "new" })), smoothly 9),
   (.request (.restore (some [{ password := "pw" }, { password := "off", status := 1 }])),
    smoothly 3)]

/-- The quota of a user is set below its usage, and a user is created with an IP limit. -/
def limits : List (Call × List Fate) :=
  [(.setAuth {}, smoothly 4), (.request (.updateQuota 1 (.ok 50)), smoothly 2),
   (.request (.add (some { username := "ann", password := "new", ipLimit := 3 })), smoothly 5)]

end Sample

theorem renewed_users_are_admitted :
    ∃ w, inTurn (exec Sample.env) (jobs Sample.env Sample.renewals) (World.start {}) = some w ∧
      w.auths.map hashes = [["sha224:pw", "sha224:new"]] ∧
      ∀ auth ∈ w.auths, ∀ hash limit, auth.lookup hash = some limit ↔
        ∃ u ∈ w.users, entitled w.clock u = true ∧ u.hash = hash ∧ u.ipLimit = limit := by
  have settles : InTurnFares (exec Sample.env) (Settles Sample.env)
      (jobs Sample.env Sample.renewals) (World.start {}) := by
    decide +kernel
  have checked : (inTurn (exec Sample.env) (jobs Sample.env Sample.renewals)
      (World.start {})).any (fun w =>
        decide (w.auths.map hashes = [["sha224:pw", "sha224:new"]])) = true := by
    decide +kernel
  obtain ⟨w, ran, admitted⟩ := (Option.any_eq_true _ _).mp checked
  refine ⟨w, ran, of_decide_eq_true admitted, ?_⟩
  exact authenticators_agree Sample.env {} nodup_nil Sample.renewals w settles ran

/-- The user over its new quota is still admitted, and the one with an IP limit of three is
admitted without a limit. -/
theorem authenticator_misses_limits :
    ∃ w, inTurn (exec Sample.env) (jobs Sample.env Sample.limits)
        (World.start (Sample.only { Sample.user with quota := -1, expiryTime := none, used := 100 })) =
        some w ∧
      w.auths.map Table.entries = [[("sha224:new", 0), ("sha224:pw", 0)]] ∧
      entitlements w.clock w.users = [("sha224:new", 3)] ∧
      ¬ ∀ auth ∈ w.auths, ∀ hash limit, auth.lookup hash = some limit ↔
        ∃ u ∈ w.users, entitled w.clock u = true ∧ u.hash = hash ∧ u.ipLimit = limit := by
  have checked : (inTurn (exec Sample.env) (jobs Sample.env Sample.limits)
      (World.start (Sample.only
        { Sample.user with quota := -1, expiryTime := none, used := 100 }))).any (fun w =>
          decide (w.auths.map Table.entries = [[("sha224:new", 0), ("sha224:pw", 0)]] ∧
            entitlements w.clock w.users = [("sha224:new", 3)])) = true := by
    decide +kernel
  obtain ⟨w, ran, found⟩ := (Option.any_eq_true _ _).mp checked
  obtain ⟨held, due⟩ := of_decide_eq_true found
  refine ⟨w, ran, held, due, ?_⟩
  intro agree
  -- the entry of the user over its quota has no row behind it
  obtain ⟨auth, mem, entries⟩ : ∃ auth ∈ w.auths,
      auth.entries = [("sha224:new", 0), ("sha224:pw", 0)] := by
    apply mem_map.mp
    rw [held]
    exact mem_cons_self
  have stale : auth.lookup "sha224:pw" = some 0 := by
    rw [Table.lookup_eq_some, entries]
    simp
  have listed := mem_entitlements.mpr ((agree auth mem _ _).mp stale)
  rw [due] at listed
  simp at listed

end TrojanGo.Accounts
