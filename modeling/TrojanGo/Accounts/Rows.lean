import TrojanGo.Accounts.Handlers
import TrojanGo.Database.Hashes
import TrojanGo.Master.AtMostOnce

/-!
# What stored rows satisfy

Where every row of the user table comes from after a write is said once, and so is what the
handlers have made sure of when they send a statement.
-/
namespace TrojanGo.Accounts

open Lib Master Database List
open Panel (validateUsername validateQuota)

/-! ### Where rows come from -/

/-- How a row of the table came about by a write. -/
inductive Descends (env : Env) (fate : Fate) (users : List User) : Write → User → Prop where
  | kept {write : Write} {u : User} (member : u ∈ users) : Descends env fate users write u
  | created {body : UserBody} (id : Nat) : Descends env fate users (.create body) (body.row id)
  | password {id : Nat} {password : String} {old : User} (member : old ∈ users) :
    Descends env fate users (.setPassword id password)
      (withPassword env.toCrypto (fate.nonces id) password old)
  | updated {id : Nat} {columns : UserEdit} {password : Option String} {old : User}
    (member : old ∈ users) : Descends env fate users (.update id columns password)
      (updated env.toCrypto (fate.nonces id) columns password old)
  | edited {id : Nat} {column : RowEdit} {old : User} (member : old ∈ users) :
    Descends env fate users (.edit id column) (column.apply old)
  | restored {entries : List UserBody} {entry : UserBody} (member : entry ∈ entries) (id : Nat) :
    Descends env fate users (.restore entries) (restored env.toCrypto fate.nonces entry id)
  | cleared {old : User} (member : old ∈ users) :
    Descends env fate users .resetTraffic (clearCounters old)
  | credited {snapshots : TrafficMap} {increments : Increments} {old : User}
    (converted : trafficIncrements (.ofNat 1) snapshots.entries = .ok increments)
    (member : old ∈ users) : Descends env fate users (.embeddedTraffic snapshots)
      (old.credit (increments.shareOf old))
  | cached {hashes : List String} (id : Nat) (hash username : String) :
    Descends env fate users (.cacheUsers hashes) { id := id, hash := hash, username := username }
  | encrypted {old : User} (todo : List User) (member : old ∈ users) :
    Descends env fate users .encryptCredentials
      (applyAll (todo.map (encryptedFor env.toCrypto fate.nonces)) old)
  | purged {old : User} (member : old ∈ users) :
    Descends env fate users .purgePlaceholders (clearCredential old)

variable {db : Db}

theorem cacheUsers_rows {hashes : List String} {u : User}
    (mem : u ∈ (Plane.cacheUsers db hashes).users) :
    u ∈ db.users ∨ ∃ id hash username, u = { id := id, hash := hash, username := username } := by
  have inserted : ∀ (hashes : List String) (db : Db), ∀ u ∈ (hashes.foldl Plane.insertUser db).users,
      u ∈ db.users ∨ ∃ id hash username, u = { id := id, hash := hash, username := username } := by
    intro hashes
    induction hashes with
    | nil => exact fun db u inside => .inl inside
    | cons hash hashes ih => grind [Plane.insertUser]
  rcases inserted hashes _ u mem with kept | new
  · exact .inl (mem_filter.mp kept).1
  · exact .inr new

variable {db' : Db}

theorem embeddedTx_ok {snapshots : TrafficMap} (ran : Plane.embeddedTx snapshots db = .ok ((), db')) :
    ∃ increments, trafficIncrements (.ofNat 1) snapshots.entries = .ok increments ∧
      db'.users = db.users.map fun u => u.credit (increments.shareOf u) := by
  simp only [Plane.embeddedTx] at ran
  obtain ⟨increments, mid, converted, stored⟩ := Tx.bind_ok ran
  simp only [liftM, monadLift, MonadLift.monadLift, StateT.lift, bind, Except.bind] at converted
  split at converted
  · cases converted
  next value made =>
    cases converted
    exact ⟨_, made, (persistTrafficIncrements_ok stored).1⟩

theorem migrationTx_ok {up : StateT Store (Except UpError) Unit}
    (ran : migrationTx up db = .ok ((), db')) :
    ∃ store, up { db := db } = .ok ((), store) ∧ store.db = db' := by
  unfold migrationTx at ran
  split at ran
  · cases ran
  next store done =>
    cases ran
    exact ⟨store, done, rfl⟩

variable {fate : Fate} {write : Write}

variable {env : Env} {allowed : Op → Prop}

/-- Every row a write leaves was there before or came about in the way of that write. -/
theorem Write.descends {value : write.Out} (ran : write.tx env fate db = .ok (value, db'))
    {u : User} (mem : u ∈ db'.users) :
    Descends env fate db.users write u := by
  cases write with
  | create body =>
    obtain ⟨rows, shape, -⟩ := createUser_ok ran
    rw [rows] at mem
    rcases mem_cons.mp mem with rfl | old
    · rw [shape]
      exact .created _
    · exact .kept old
  | setPassword id password =>
    rw [(setUserPassword_ok ran).1] at mem
    rcases mem_onUser mem with ⟨old, -⟩ | ⟨old, inside, -, rfl⟩
    · exact .kept old
    · exact .password inside
  | delete id =>
    cases ran
    exact .kept (mem_filter.mp mem).1
  | update id columns password =>
    rw [updateUser_ok ran] at mem
    rcases mem_onUser mem with ⟨old, -⟩ | ⟨old, inside, -, rfl⟩
    · exact .kept old
    · exact .updated inside
  | edit id column =>
    rw [updateRow_ok ran] at mem
    rcases mem_onUser mem with ⟨old, -⟩ | ⟨old, inside, -, rfl⟩
    · exact .kept old
    · exact .edited inside
  | restore entries =>
    obtain ⟨rows, left, adds, -⟩ := restoreUsers_ok ran
    rw [left] at mem
    rcases mem_append.mp mem with new | old
    · obtain ⟨entry, inside, shape, -⟩ := adds.absent u new
      rw [shape]
      exact .restored inside _
    · exact .kept old
  | resetTraffic =>
    cases ran
    obtain ⟨old, inside, rfl⟩ := mem_map.mp mem
    exact .cleared inside
  | embeddedTraffic snapshots =>
    obtain ⟨increments, converted, rows⟩ := embeddedTx_ok ran
    rw [rows] at mem
    obtain ⟨old, inside, rfl⟩ := mem_map.mp mem
    exact .credited converted inside
  | cacheUsers hashes =>
    cases ran
    rcases cacheUsers_rows mem with old | ⟨id, hash, username, rfl⟩
    · exact .kept old
    · exact .cached id hash username
  | encryptCredentials =>
    obtain ⟨store, done, rfl⟩ := migrationTx_ok ran
    rw [(encryptRecoverableCredentials_ok done).2] at mem
    obtain ⟨old, inside, rfl⟩ := mem_map.mp mem
    exact .encrypted _ inside
  | purgePlaceholders =>
    cases ran
    obtain ⟨old, inside, rfl⟩ := mem_map.mp mem
    split
    · exact .purged inside
    · exact .kept inside

theorem exec_users {w w' : World} {op : Op} {result : Res op}
    (executed : exec env fate w op = some (result, w')) :
    w'.users = w.users ∨
      (∃ rate entries increments, trafficIncrements rate entries = .ok increments ∧
        w'.users = w.users.map fun u => u.credit (increments.shareOf u)) ∨
      ∃ write value, op = .write write ∧ write.tx env fate w.db = .ok (value, w'.db) := by
  cases op with
  | master op =>
    simp only [exec, Option.map_eq_some_iff] at executed
    obtain ⟨⟨answer, left⟩, done, same⟩ := executed
    cases same
    cases exec_effect done with
    | same | receives | answers => exact .inl rfl
    | saves node => exact .inl (saveNode_users w.db node)
    | adds adds => exact .inr (.inl ⟨_, _, _, adds.converted, adds.users⟩)
    | purges users => exact .inl users
  | write write =>
    rcases write_cases executed with ⟨-, -, rfl⟩ | ⟨value, db, ran, rfl, -⟩
    · exact .inl rfl
    · exact .inr (.inr ⟨write, value, rfl, ran⟩)
  | now | userByHash | userByID | activeUsers | attached | addUser | delUser | attach | refresh
  | wait | reply =>
    cases executed
    exact .inl rfl

/-! ### Importing a backup twice -/

namespace Sample

def backup : List UserBody :=
  [{ password := "pw" }, { hash := "h" }, { hash := "h", username := "ann" }]

end Sample

/-- No two rows have the same id. -/
def Keyed (users : List User) : Prop := (users.map User.id).Nodup

variable {users : List User}

section

variable (keyed : Keyed users)

include keyed

theorem Keyed.map {f : User → User} (keeps : ∀ u, (f u).id = u.id) :
    Keyed (users.map f) := by
  unfold Keyed
  rw [map_map, show User.id ∘ f = User.id from funext keeps]
  exact keyed

theorem Keyed.filter (p : User → Bool) :
    Keyed (users.filter p) :=
  keyed.sublist (filter_sublist.map _)

theorem Keyed.cons {row : User} (free : row.id ∉ users.map User.id) :
    Keyed (row :: users) :=
  nodup_cons.mpr ⟨free, keyed⟩

theorem Keyed.onUser (id : Nat) {f : User → User} (keeps : ∀ u, (f u).id = u.id) :
    Keyed (onUser id f users) := by
  unfold Keyed
  rw [map_id_onUser keeps]
  exact keyed

end

theorem cacheUsers_keyed (hashes : List String) (keyed : Keyed db.users) :
    Keyed (Plane.cacheUsers db hashes).users := by
  have inserted : ∀ (hashes : List String) (db : Db), Keyed db.users →
      Keyed (hashes.foldl Plane.insertUser db).users := by
    intro hashes
    induction hashes with
    | nil => exact fun db keyed => keyed
    | cons hash hashes ih =>
      intro db keyed
      apply ih
      unfold Plane.insertUser
      split
      · apply keyed.cons
        intro used
        obtain ⟨u, mem, same⟩ := mem_map.mp used
        exact absurd same (Nat.ne_of_lt (id_lt_nextID mem))
      · exact keyed
  exact inserted hashes _ (keyed.filter _)

/-- Every write keeps the ids of the rows it keeps, and new rows get new ones. -/
theorem Write.keyed {value : write.Out} (ran : write.tx env fate db = .ok (value, db'))
    (keyed : Keyed db.users) : Keyed db'.users := by
  cases write with
  | create body =>
    obtain ⟨rows, -, free⟩ := createUser_ok ran
    rw [rows]
    exact keyed.cons free
  | setPassword id password =>
    rw [(setUserPassword_ok ran).1]
    exact keyed.onUser id fun _ => rfl
  | delete id =>
    cases ran
    exact keyed.filter _
  | update id columns password =>
    rw [updateUser_ok ran]
    exact keyed.onUser id fun u => updated_id _ _ _ _ u
  | edit id column =>
    rw [updateRow_ok ran]
    exact keyed.onUser id fun u => by cases column <;> rfl
  | restore entries =>
    obtain ⟨rows, left, -, keys, apart, -⟩ := restoreUsers_ok ran
    rw [left, Keyed, map_append]
    refine nodup_append.mpr ⟨keys, keyed, ?_⟩
    intro id inRows other inOld same
    obtain ⟨u, mem, rfl⟩ := mem_map.mp inRows
    exact apart u mem (same ▸ inOld)
  | resetTraffic =>
    cases ran
    exact keyed.map fun _ => rfl
  | embeddedTraffic snapshots =>
    obtain ⟨increments, -, rows⟩ := embeddedTx_ok ran
    rw [rows]
    exact keyed.map fun _ => rfl
  | cacheUsers hashes =>
    cases ran
    exact cacheUsers_keyed hashes keyed
  | encryptCredentials =>
    obtain ⟨store, done, rfl⟩ := migrationTx_ok ran
    rw [(encryptRecoverableCredentials_ok done).2]
    apply keyed.map
    exact fun u => applyAll_encryptedFor (P := (·.id = u.id)) (fun _ _ _ => id) _ rfl
  | purgePlaceholders =>
    cases ran
    apply keyed.map
    intro u
    split <;> rfl

theorem exec_keyed {w w' : World} {op : Op} {result : Res op}
    (done : exec env fate w op = some (result, w')) (keyed : Keyed w.users) :
    Keyed w'.users := by
  rcases exec_users done with same | ⟨_, _, increments, -, credited⟩ | ⟨write, value, -, ran⟩
  · rw [same]
    exact keyed
  · rw [credited]
    exact keyed.map fun _ => rfl
  · exact Write.keyed ran keyed

/-! ### What the handlers send -/

def statusInRange (status : Int) : Prop := status = 0 ∨ status = 1

def limitInRange (limit : Int) : Prop := 0 ≤ limit ∧ limit ≤ 100

/-- The checked columns of an update are in range, and a new hash comes with its password. -/
structure UserEdit.Checked (env : Env) (columns : UserEdit) (password : Option String) : Prop where
  hash : columns.hash = password.map env.sha224
  status : ∀ status ∈ columns.status, statusInRange status
  quota : ∀ quota ∈ columns.quota, -1 ≤ quota
  ipLimit : ∀ limit ∈ columns.ipLimit, limitInRange limit

/-- What the handlers have made sure of when they send a statement. -/
def Op.Checked (env : Env) : Op → Prop
  | .write (.create body) =>
    -1 ≤ body.quota ∧ statusInRange body.status ∧ limitInRange body.ipLimit
  | .write (.update _ columns password) => UserEdit.Checked env columns password
  | .write (.edit _ (.quota quota)) => -1 ≤ quota
  | _ => True

theorem validateQuota_ok {quota : Int} (passed : validateQuota quota = .ok ()) : -1 ≤ quota := by
  grind [validateQuota]

theorem checkStatus_ok {status : Int} (passed : checkStatus status = .ok ()) :
    statusInRange status := by
  grind [checkStatus, statusInRange]

theorem checkIPLimit_ok {limit : Int} (passed : checkIPLimit limit = .ok ()) :
    limitInRange limit := by
  grind [checkIPLimit, limitInRange]

/-- The first of two checks that both passed. -/
theorem check_bind_ok {α : Type} {first : Except String Unit} {next : Unit → Except String α}
    {value : α} (passed : (first >>= next) = .ok value) : first = .ok () ∧ next () = .ok value := by
  cases first with
  | error reason => cases passed
  | ok checked => exact ⟨rfl, passed⟩

/-- A check of a column that was sent. -/
theorem check_forM_ok {α : Type} {check : α → Except String Unit} {column : Option α}
    (passed : column.forM check = .ok ()) : ∀ value ∈ column, check value = .ok () := by
  intro value present
  cases present
  exact passed

theorem checkNewUser_ok {user : UserBody} (passed : checkNewUser user = .ok ()) :
    -1 ≤ user.quota ∧ statusInRange user.status ∧ limitInRange user.ipLimit := by
  unfold checkNewUser at passed
  split at passed
  · cases passed
  · obtain ⟨_, passed⟩ := check_bind_ok passed
    obtain ⟨quota, passed⟩ := check_bind_ok passed
    obtain ⟨status, limit⟩ := check_bind_ok passed
    exact ⟨validateQuota_ok quota, checkStatus_ok status, checkIPLimit_ok limit⟩

theorem columnEdits_ok {update : UpdateBody} {columns : UserEdit}
    (passed : columnEdits update = .ok columns) (password : Option String)
    (expiry : Option (Option Time)) :
    UserEdit.Checked env
      { columns with hash := password.map env.sha224, expiryTime := expiry } password := by
  obtain ⟨_, passed⟩ := check_bind_ok passed
  obtain ⟨status, passed⟩ := check_bind_ok passed
  obtain ⟨quota, passed⟩ := check_bind_ok passed
  obtain ⟨limit, passed⟩ := check_bind_ok passed
  cases passed
  exact {
    hash := rfl
    status := fun value present => checkStatus_ok (check_forM_ok status value present)
    quota := fun value present => validateQuota_ok (check_forM_ok quota value present)
    ipLimit := fun value present => checkIPLimit_ok (check_forM_ok limit value present) }

open Prog

section Quiet

variable {env : Env} {allowed : Op → Prop}
  (replies : ∀ request answer, allowed (.reply request answer))

include replies

variable {id : Nat}

theorem editRow_only {request : Request} {column : RowEdit} {failed : String} {done : Reply}
    (edit : allowed (.write (.edit id column))) :
    (editRow request id column failed done).Only allowed := by
  grind [editRow]

theorem handleUpdateQuota_only {quota : Except String Int}
    (edit : ∀ quota, -1 ≤ quota → allowed (.write (.edit id (.quota quota)))) :
    (handleUpdateQuota id quota).Only allowed := by
  unfold handleUpdateQuota
  cases quota with
  | error reason => exact .ask (replies _ _)
  | ok quota =>
    dsimp only
    split
    · exact .ask (replies _ _)
    next passed => exact editRow_only replies (edit quota (validateQuota_ok passed))

theorem handleSetExpire_only {days : Except String Int} (now : allowed .now)
    (edit : ∀ expiry, allowed (.write (.edit id (.expiryTime expiry)))) :
    (handleSetExpire env id days).Only allowed := by
  unfold handleSetExpire
  cases days with
  | error reason => exact .ask (replies _ _)
  | ok days => grind [editRow_only]

theorem handleHysteriaAuth_only {fields : Option (List (String × String))} (now : allowed .now)
    (lookup : ∀ hash, allowed (.userByHash hash none)) :
    (handleHysteriaAuth env fields).Only allowed := by
  unfold handleHysteriaAuth
  dsimp only
  split
  · exact .ask (replies _ _)
  · grind

end Quiet

theorem background_only (admitted : allowed (.write write)) :
    (background write).Only allowed :=
  .step admitted fun _ => .ret ()

theorem migrateCredentials_only (encrypt : allowed (.write .encryptCredentials))
    (purge : allowed (.write .purgePlaceholders)) :
    migrateCredentials.Only allowed := by
  grind [migrateCredentials, background_only]

section Only

variable (env : Env)

theorem syncAuthAddUser_checked (hash : String) : (syncAuthAddUser hash).Only (Op.Checked env) := by
  grind [syncAuthAddUser, Op.Checked]

theorem syncAuthDelUser_checked (hash : String) : (syncAuthDelUser hash).Only (Op.Checked env) := by
  grind [syncAuthDelUser, Op.Checked]

theorem handleAddUser_checked (body : Option UserBody) :
    (handleAddUser env body).Only (Op.Checked env) := by
  unfold handleAddUser
  cases body with
  | none => exact .ask trivial
  | some user =>
    dsimp only
    split
    · exact .ask trivial
    next passed =>
      refine .step trivial ?_
      intro found
      cases found with
      | found | failed => exact .ask trivial
      | missing =>
        have inRange := checkNewUser_ok passed
        refine .step inRange ?_
        intro created
        cases created with
        | error failure => exact .ask trivial
        | ok row =>
          refine .step trivial ?_
          intro stored
          cases stored with
          | error failure => exact .step trivial fun _ => .ask trivial
          | ok done =>
            dsimp only
            split
            · exact .bind (syncAuthAddUser_checked env _) fun _ => .ask trivial
            · exact .ask trivial

theorem commitUpdate_checked (request : Request) (user : User) {columns : UserEdit}
    {password : Option String} (checked : UserEdit.Checked env columns password) :
    (commitUpdate request user columns password).Only (Op.Checked env) := by
  refine .step checked ?_
  intro done
  cases done with
  | error failure => exact .ask trivial
  | ok committed =>
    refine .bind ?_ fun _ => .ask trivial
    refine .step trivial ?_
    intro attached
    cases attached with
    | false => exact .ret ()
    | true =>
      refine .bind (syncAuthDelUser_checked env _) fun _ => .step trivial ?_
      intro found
      cases found with
      | none => exact .ret ()
      | some u =>
        dsimp only
        split
        · exact syncAuthAddUser_checked env _
        · exact .ret ()

theorem handleUpdateUser_checked (id : Nat) (body : Except String UpdateBody) :
    (handleUpdateUser env id body).Only (Op.Checked env) := by
  unfold handleUpdateUser
  cases body with
  | error reason => exact .ask trivial
  | ok update =>
    refine .step trivial ?_
    intro found
    cases found with
    | none => exact .ask trivial
    | some user =>
      dsimp only
      split
      · exact .ask trivial
      next columns passed =>
        have conflict : (passwordConflict env id update.password).Only (Op.Checked env) := by
          unfold passwordConflict
          split
          · exact .ret none
          · refine .step trivial ?_
            intro found
            cases found <;> exact .ret _
        refine .bind conflict ?_
        intro answer
        cases answer with
        | some answer => exact .ask trivial
        | none =>
          refine .step trivial ?_
          intro now
          split
          · exact .ask trivial
          · exact commitUpdate_checked env _ _ (columnEdits_ok passed _ _)

theorem handleDeleteUser_checked (id : Nat) : (handleDeleteUser id).Only (Op.Checked env) := by
  refine .step trivial ?_
  intro found
  cases found with
  | none => exact .ask trivial
  | some user =>
    refine .bind (syncAuthDelUser_checked env _) fun _ => .step trivial ?_
    intro done
    cases done <;> exact .ask trivial

theorem handleRestore_checked (backup : Option (List UserBody)) :
    (handleRestore backup).Only (Op.Checked env) := by
  have restored : ∀ hashes, (syncRestored hashes).Only (Op.Checked env) := by
    intro hashes
    induction hashes with
    | nil => exact .ret ()
    | cons hash hashes ih => exact .bind (syncAuthAddUser_checked env hash) fun _ => ih
  unfold handleRestore
  cases backup with
  | none => exact .ask trivial
  | some entries =>
    refine .step trivial ?_
    intro done
    cases done with
    | error failure => exact .ask trivial
    | ok result => exact .bind (restored result.1) fun _ => .ask trivial

theorem handle_checked (request : Request) : (handle env request).Only (Op.Checked env) := by
  cases request with
  | add body => exact handleAddUser_checked env body
  | update id body => exact handleUpdateUser_checked env id body
  | delete id => exact handleDeleteUser_checked env id
  | updateQuota id quota =>
    exact handleUpdateQuota_only (fun _ _ => trivial) fun quota inRange => inRange
  | clearTraffic | cancelExpire => exact editRow_only (fun _ _ => trivial) trivial
  | setExpire id days =>
    exact handleSetExpire_only (fun _ _ => trivial) trivial fun expiry => trivial
  | restore backup => exact handleRestore_checked env backup
  | hysteriaAuth fields =>
    exact handleHysteriaAuth_only (fun _ _ => trivial) trivial fun hash => trivial

/-- Every program of the machine sends only statements that its checks allow. -/
theorem body_checked (call : Call) : (body env call).Only (Op.Checked env) := by
  cases call with
  | master call => exact only_embed (fun _ => trivial) _
  | request request => exact handle_checked env request
  | setAuth auth =>
    refine .step trivial fun index => .step trivial ?_
    intro users
    cases users with
    | none => exact .ret ()
    | some users => exact .step trivial fun _ => .ask trivial
  | embeddedTraffic | resetTraffic | cacheUsers => exact background_only trivial
  | migrateCredentials => exact migrateCredentials_only trivial trivial
  | wait duration => exact .ask trivial

end Only

end TrojanGo.Accounts
