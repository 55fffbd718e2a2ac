import TrojanGo.Accounts.Authenticators
import TrojanGo.Database.Migrations

/-!
# User administration

The administrator's handlers next to everything else that writes user rows. A handler is a
program over statements. A write is a transaction of its own: it may be refused, it may fail, and
it may report a failure after it was committed.
-/
namespace TrojanGo.Accounts

open Lib Master Database
open Panel (validateUsername validateQuota)

/-- What the handlers use from outside the database. -/
structure Env extends Crypto where
  parseDateTime : String → Option Time
  /-- a day, taken as its last second -/
  parseDate : String → Option Time
  addDays : Time → Nat → Time

/-! ### Requests -/

/-- The body of an update; an absent text and an empty one are the same. -/
structure UpdateBody where
  username : String := ""
  password : String := ""
  status : Option Int := none
  expiryDays : Option Int := none
  expiryTime : Option String := none
  quota : Option Int := none
  ipLimit : Option Int := none
  deriving DecidableEq

/-- The requests on users, each with what its body decodes to. A decoder that fails says why
where the handler passes the reason on. -/
inductive Request where
  | add (body : Option UserBody)
  | update (id : Nat) (body : Except String UpdateBody)
  | delete (id : Nat)
  | updateQuota (id : Nat) (quota : Except String Int)
  | clearTraffic (id : Nat)
  | setExpire (id : Nat) (days : Except String Int)
  | cancelExpire (id : Nat)
  | restore (backup : Option (List UserBody))
  /-- the entries of the body whose values are texts -/
  | hysteriaAuth (fields : Option (List (String × String)))
  deriving DecidableEq

structure PublicUser where
  id : Nat
  username : String
  hash : String
  quota : Int
  used : Int
  upload : Int
  download : Int
  expiryTime : Option Time
  ipLimit : Int
  status : Int
  deriving DecidableEq

def toPublicUser (u : User) : PublicUser where
  id := u.id
  username := u.username
  hash := u.hash
  quota := u.quota
  used := u.used
  upload := u.upload
  download := u.download
  expiryTime := u.expiryTime
  ipLimit := u.ipLimit
  status := u.status

inductive Reply where
  | error (status : Nat) (text : String)
  | user (user : PublicUser)
  | message (text : String)
  | expiry (text : String) (expiry : Time)
  | granted (quota used : Int)
  | refused (status : Nat)
  deriving DecidableEq

/-! ### Writes -/

/-- The transactions that write user rows. -/
inductive Write where
  | create (body : UserBody)
  | setPassword (id : Nat) (password : String)
  | delete (id : Nat)
  | update (id : Nat) (columns : UserEdit) (password : Option String)
  | edit (id : Nat) (column : RowEdit)
  | restore (entries : List UserBody)
  | resetTraffic
  | embeddedTraffic (snapshots : TrafficMap)
  | cacheUsers (hashes : List String)
  | encryptCredentials
  | purgePlaceholders

@[reducible] def Write.Out : Write → Type
  | .create _ => User
  | .edit _ _ => Nat
  | .restore _ => List String × Nat
  | .setPassword _ _ | .delete _ | .update _ _ _ | .resetTraffic | .embeddedTraffic _
  | .cacheUsers _ | .encryptCredentials | .purgePlaceholders => Unit

/-- Where an update failed. -/
inductive Stage where
  | begin
  | statement
  | credential
  | commit
  deriving DecidableEq

def Stage.text : Stage → String
  | .begin => "开启数据库事务失败"
  | .statement => "更新用户失败"
  | .credential => "用户凭据加密失败"
  | .commit => "提交用户更新事务失败"

structure Failure where
  stage : Stage
  text : String
  deriving DecidableEq

/-- How a statement fares. On top of what the master's statements need: the nonce drawn for
each row, how far the counter of user ids is ahead, and what a failure says. -/
structure Fate extends Master.Fate where
  nonces : Nat → String := fun _ => ""
  floor : Nat := 0
  failure : Failure := ⟨.commit, ""⟩

/-- A credential migration, as far as it concerns the tables of users and nodes. -/
def migrationTx (up : StateT Store (Except UpError) Unit) : Tx Unit := fun db =>
  match up { db := db } with
  | .error _ => .error .database
  | .ok ((), store) => .ok ((), store.db)

def Write.tx (env : Env) (fate : Fate) : (write : Write) → Tx write.Out
  | .create body => createUser fate.floor body
  | .setPassword id password => setUserPassword env.toCrypto fate.nonces id password
  | .delete id => deleteUser id
  | .update id columns password => updateUser env.toCrypto fate.nonces id columns password
  | .edit id column => updateRow id column
  | .restore entries => restoreUsers env.toCrypto fate.floor fate.nonces entries
  | .resetTraffic => Database.resetTraffic
  | .embeddedTraffic snapshots => Plane.embeddedTx snapshots
  | .cacheUsers hashes => fun db => .ok ((), Plane.cacheUsers db hashes)
  | .encryptCredentials =>
    migrationTx (encryptRecoverableCredentials env.toCrypto fate.nonces fate.time)
  | .purgePlaceholders => purgeSyncPlaceholderPasswords env.toCrypto

/-! ### The state -/

structure World where
  master : Master.World
  /-- the authenticators of the proxy that runs in the same process -/
  auths : List Authenticator := []
  clock : Time := 0
  replies : List (Request × Reply) := []

abbrev World.db (w : World) : Db := w.master.db

abbrev World.users (w : World) : List User := w.master.db.users

def World.withDb (w : World) (db : Db) : World := { w with master := { w.master with db := db } }

def World.start (db : Db) : World := { master := { db := db } }

@[simp] theorem World.withDb_auths (w : World) (db : Db) : (w.withDb db).auths = w.auths := rfl
@[simp] theorem World.withDb_clock (w : World) (db : Db) : (w.withDb db).clock = w.clock := rfl

/-- Send a transaction. -/
def World.submit {α : Type} (w : World) (fate : Fate) (tx : Tx α) : Except Failure α × World :=
  match tx w.db with
  | .error _ => (.error { fate.failure with stage := .statement }, w)
  | .ok (value, db) =>
    if fate.ok then (.ok value, w.withDb db)
    else (.error fate.failure, if fate.committed then w.withDb db else w)

/-! ### Statements -/

/-- `First` by hash tells a missing row from a failed query. -/
inductive Lookup where
  | found (u : User)
  | missing
  | failed
  deriving DecidableEq

inductive Op where
  | master (op : Master.Op)
  | now
  | userByHash (hash : String) (except : Option Nat)
  | userByID (id : Nat)
  | activeUsers
  | write (write : Write)
  | attached
  | addUser (hash : String)
  | delUser (hash : String)
  | attach (auth : Authenticator)
  | refresh (index : Nat) (users : List User) (now : Time)
  | wait (duration : Nat)
  | reply (request : Request) (answer : Reply)

@[reducible] def Res : Op → Type
  | .master op => Master.Res op
  | .now => Time
  | .userByHash _ _ => Lookup
  | .userByID _ => Option User
  | .activeUsers => Option (List User)
  | .write write => Except Failure write.Out
  | .attached => Bool
  | .addUser _ | .delUser _ | .refresh _ _ _ | .wait _ | .reply _ _ => Unit
  | .attach _ => Nat

def lookupHash (users : List User) (hash : String) (except : Option Nat) : Lookup :=
  match users.find? fun u => u.hash = hash ∧ some u.id ≠ except with
  | some u => .found u
  | none => .missing

def exec (env : Env) : Prog.Exec World Fate Op Res
  | fate, w, .master op => (Master.exec env.fingerprint fate.toFate w.master op).map fun done =>
    (done.1, { w with master := done.2 })
  | _, w, .now => some (w.clock, w)
  | fate, w, .userByHash hash except =>
    some (if fate.ok then lookupHash w.users hash except else .failed, w)
  | fate, w, .userByID id => some (if fate.ok then w.users.find? fun u => u.id = id else none, w)
  | fate, w, .activeUsers => some (if fate.ok then some (activeRows w.users) else none, w)
  | fate, w, .write write => some (w.submit fate (write.tx env fate))
  | _, w, .attached => some (!w.auths.isEmpty, w)
  | _, w, .addUser hash =>
    some ((), { w with auths := w.auths.map (Authenticator.attempt fun a => a.addUser hash) })
  | _, w, .delUser hash =>
    some ((), { w with auths := w.auths.map (Authenticator.attempt fun a => a.delUser hash) })
  | _, w, .attach auth => some (w.auths.length, { w with auths := w.auths ++ [auth] })
  | _, w, .refresh index users now =>
    let refresh := Authenticator.attempt (syncAuthenticatorFromDatabase now users)
    some ((), { w with auths := w.auths.modify index refresh })
  | _, w, .wait duration => some ((), { w with clock := w.clock + duration })
  | _, w, .reply request answer =>
    some ((), { w with replies := (request, answer) :: w.replies })

/-- Everything a write can do: leave the state, or be committed. -/
theorem write_cases {env : Env} {write : Write} {fate : Fate} {w w' : World}
    {result : Except Failure write.Out}
    (executed : exec env fate w (.write write) = some (result, w')) :
    (∃ failure, result = .error failure ∧ w' = w) ∨
      ∃ value db, write.tx env fate w.db = .ok (value, db) ∧ w' = w.withDb db ∧
        (result = .ok value ∨
          (∃ failure, result = .error failure) ∧ fate.ok = false ∧ fate.committed = true) := by
  simp only [exec, World.submit] at executed
  grind

/-! ### Handlers -/

abbrev Handler := Prog Op Res

abbrev ask (op : Op) : Handler (Res op) := Prog.ask op

abbrev submit (write : Write) : Handler (Except Failure write.Out) := ask (.write write)

abbrev reply (request : Request) (answer : Reply) : Handler Unit := ask (.reply request answer)

/-- A handler of the master, as it stands. -/
def lift {α : Type} (handler : Master.Handler α) : Handler α :=
  Prog.embed Op.master (fun _ result => result) handler

def syncAuthAddUser (hash : String) : Handler Unit := do
  if hash ≠ "" then ask (.addUser hash)

def syncAuthDelUser (hash : String) : Handler Unit := do
  if hash ≠ "" then ask (.delUser hash)

/-- `SetAuth`: attach an authenticator and load it from the database. -/
def setAuth (auth : Authenticator) : Handler Unit := do
  let index ← ask (.attach auth)
  match ← ask .activeUsers with
  | none => return ()
  | some users => do
    let now ← ask .now
    ask (.refresh index users now)

def checkStatus (status : Int) : Except String Unit :=
  if status < 0 ∨ status > 1 then .error "状态必须为 0（启用）或 1（禁用）" else .ok ()

def checkIPLimit (limit : Int) : Except String Unit :=
  if limit < 0 ∨ limit > 100 then .error "IP 限制必须在 0 到 100 之间" else .ok ()

def checkDays (days : Int) : Except String Unit :=
  if days < 0 ∨ days > 3650 then .error "有效天数必须在 0 到 3650 之间" else .ok ()

/-- The checks of a new user, in the order of the handler. The counters are not checked. -/
def checkNewUser (user : UserBody) : Except String Unit :=
  if user.password = "" then .error "用户名和密码不能为空"
  else do
    validateUsername user.username
    validateQuota user.quota
    checkStatus user.status
    checkIPLimit user.ipLimit

/-- Insert the row without its password, then store the password under the id it got. -/
def createWithPassword (request : Request) (user : UserBody) (hash : String) : Handler Unit := do
  match ← submit (.create { user with hash := hash, password := "" }) with
  | .error failure => reply request (.error 500 failure.text)
  | .ok row =>
    match ← submit (.setPassword row.id user.password) with
    | .error _ => do
      let _ ← submit (.delete row.id)
      reply request (.error 500 "用户凭据加密失败")
    | .ok () => do
      if row.status = 0 then syncAuthAddUser row.hash
      reply request (.user (toPublicUser row))

def handleAddUser (env : Env) (body : Option UserBody) : Handler Unit := do
  let request := Request.add body
  match body with
  | none => reply request (.error 400 "无效的参数")
  | some user =>
    match checkNewUser user with
    | .error reason => reply request (.error 400 reason)
    | .ok () => do
      let hash := env.sha224 user.password
      match ← ask (.userByHash hash none) with
      | .found existing =>
        reply request (.error 409 ("此密码已被用户 [" ++ existing.username ++ "] 使用"))
      | .failed => reply request (.error 500 "创建用户失败")
      | .missing => createWithPassword request user hash

def present (text : String) : Option String := if text = "" then none else some text

/-- The checks of an update that come before the password, in the order of the handler. -/
def columnEdits (update : UpdateBody) : Except String UserEdit := do
  (present update.username).forM validateUsername
  update.status.forM checkStatus
  update.quota.forM validateQuota
  update.ipLimit.forM checkIPLimit
  return {
    username := present update.username
    status := update.status
    quota := update.quota
    ipLimit := update.ipLimit }

/-- The expiry an update sets: a number of days, unless a date is given. -/
def expiryEdit (env : Env) (now : Time) (update : UpdateBody) :
    Except String (Option (Option Time)) := do
  update.expiryDays.forM checkDays
  let byDays := update.expiryDays.map fun days =>
    if days > 0 then some (env.addDays now days.toNat) else none
  match update.expiryTime with
  | none => return byDays
  | some text =>
    if text = "" ∨ text = "null" then return some none
    else
      match (env.parseDateTime text).or (env.parseDate text) with
      | some expiry => return some (some expiry)
      | none => throw "无效的到期时间格式"

/-- Another user must not have the new password. -/
def passwordConflict (env : Env) (id : Nat) (password : String) : Handler (Option Reply) := do
  if password = "" then return none
  else
    match ← ask (.userByHash (env.sha224 password) (some id)) with
    | .found _ => return some (.error 409 "此密码已被其他用户使用")
    | .failed => return some (.error 500 "更新用户失败")
    | .missing => return none

/-- Replace the user in the authenticators once the update is committed. -/
def syncUpdatedUser (id : Nat) (oldHash : String) : Handler Unit := do
  if ← ask .attached then
    syncAuthDelUser oldHash
    match ← ask (.userByID id) with
    | none => return ()
    | some u => if u.status = 0 then syncAuthAddUser u.hash

def commitUpdate (request : Request) (user : User) (edit : UserEdit) (password : Option String) :
    Handler Unit := do
  match ← submit (.update user.id edit password) with
  | .error failure => reply request (.error 500 failure.stage.text)
  | .ok () => do
    syncUpdatedUser user.id user.hash
    reply request (.message "更新成功")

def handleUpdateUser (env : Env) (id : Nat) (body : Except String UpdateBody) : Handler Unit := do
  let request := Request.update id body
  match body with
  | .error reason => reply request (.error 400 reason)
  | .ok update =>
    match ← ask (.userByID id) with
    | none => reply request (.error 404 "用户不存在")
    | some user =>
      match columnEdits update with
      | .error reason => reply request (.error 400 reason)
      | .ok columns =>
        match ← passwordConflict env id update.password with
        | some answer => reply request answer
        | none => do
          let now ← ask .now
          match expiryEdit env now update with
          | .error reason => reply request (.error 400 reason)
          | .ok expiry =>
            let password := present update.password
            commitUpdate request user
              { columns with hash := password.map env.sha224, expiryTime := expiry } password

/-- The authenticators forget the user before its row is deleted. -/
def handleDeleteUser (id : Nat) : Handler Unit := do
  let request := Request.delete id
  match ← ask (.userByID id) with
  | none => reply request (.error 404 "用户不存在")
  | some user => do
    syncAuthDelUser user.hash
    match ← submit (.delete user.id) with
    | .error _ => reply request (.error 500 "删除用户失败")
    | .ok () => reply request (.message "已删除")

/-- What the handlers for single columns have in common. -/
def editRow (request : Request) (id : Nat) (edit : RowEdit) (failed : String) (done : Reply) :
    Handler Unit := do
  match ← submit (.edit id edit) with
  | .error _ => reply request (.error 500 failed)
  | .ok affected =>
    if affected = 0 then reply request (.error 404 "用户不存在") else reply request done

def handleUpdateQuota (id : Nat) (quota : Except String Int) : Handler Unit := do
  let request := Request.updateQuota id quota
  match quota with
  | .error reason => reply request (.error 400 reason)
  | .ok quota =>
    match validateQuota quota with
    | .error reason => reply request (.error 400 reason)
    | .ok () => editRow request id (.quota quota) "设置限额失败" (.message "限额设置成功")

def handleClearTraffic (id : Nat) : Handler Unit :=
  editRow (.clearTraffic id) id .clearTraffic "清空流量失败" (.message "流量已清空")

def handleSetExpire (env : Env) (id : Nat) (days : Except String Int) : Handler Unit := do
  let request := Request.setExpire id days
  match days with
  | .error reason => reply request (.error 400 reason)
  | .ok days =>
    match checkDays days with
    | .error reason => reply request (.error 400 reason)
    | .ok () => do
      let now ← ask .now
      let expiry := env.addDays now days.toNat
      editRow request id (.expiryTime (some expiry)) "设置过期时间失败"
        (.expiry "过期时间设置成功" expiry)

def handleCancelExpire (id : Nat) : Handler Unit :=
  editRow (.cancelExpire id) id (.expiryTime none) "取消限期失败" (.message "已取消限期")

def syncRestored : List String → Handler Unit
  | [] => return ()
  | hash :: hashes => do
    syncAuthAddUser hash
    syncRestored hashes

/-- The authenticators learn of the restored users once the import is committed. -/
def handleRestore (backup : Option (List UserBody)) : Handler Unit := do
  let request := Request.restore backup
  match backup with
  | none => reply request (.error 400 "无效的备份文件")
  | some entries =>
    match ← submit (.restore entries) with
    | .error _ => reply request (.error 500 "恢复用户失败，已回滚")
    | .ok (hashes, count) => do
      syncRestored hashes
      reply request (.message ("恢复成功: " ++ toString count ++ " 个用户"))

/-- The password stands under the first of several names that holds a non-empty text. -/
def hysteriaPassword (fields : List (String × String)) : Option String :=
  ["password", "pass", "user", "username", "token", "auth"].findSome? fun key =>
    (fields.lookup key).bind present

def handleHysteriaAuth (env : Env) (fields : Option (List (String × String))) : Handler Unit := do
  let request := Request.hysteriaAuth fields
  match fields.bind hysteriaPassword with
  | none => reply request (.refused 400)
  | some password =>
    match ← ask (.userByHash (env.sha224 password) none) with
    | .missing | .failed => reply request (.refused 401)
    | .found user => do
      let now ← ask .now
      match hysteriaVerdict now (some user) with
      | none => reply request (.refused 401)
      | some (quota, used) => reply request (.granted quota used)

/-! ### The machine -/

/-- The two credential migrations; the second runs once the first has succeeded. -/
def migrateCredentials : Handler Unit := do
  match ← submit .encryptCredentials with
  | .error _ => return ()
  | .ok () => do
    let _ ← submit .purgePlaceholders

inductive Call where
  | master (call : Master.Call)
  | request (request : Request)
  | setAuth (auth : Authenticator)
  | embeddedTraffic (snapshots : TrafficMap)
  | resetTraffic
  | cacheUsers (hashes : List String)
  | migrateCredentials
  | wait (duration : Nat)

def handle (env : Env) : Request → Handler Unit
  | .add body => handleAddUser env body
  | .update id body => handleUpdateUser env id body
  | .delete id => handleDeleteUser id
  | .updateQuota id quota => handleUpdateQuota id quota
  | .clearTraffic id => handleClearTraffic id
  | .setExpire id days => handleSetExpire env id days
  | .cancelExpire id => handleCancelExpire id
  | .restore backup => handleRestore backup
  | .hysteriaAuth fields => handleHysteriaAuth env fields

/-- A write whose outcome is only logged. -/
def background (write : Write) : Handler Unit := do
  let _ ← submit write

def body (env : Env) : Call → Handler Unit
  | .master call => lift (Master.body call)
  | .request request => handle env request
  | .setAuth auth => setAuth auth
  | .embeddedTraffic snapshots => background (.embeddedTraffic snapshots)
  | .resetTraffic => background .resetTraffic
  | .cacheUsers hashes => background (.cacheUsers hashes)
  | .migrateCredentials => migrateCredentials
  | .wait duration => ask (.wait duration)

/-- The process: any number of threads, each serving one call after another. A crash ends every
call and leaves the database. -/
def machine (env : Env) : Machine Nat World Fate (fun _ => Call) (fun _ => Unit) Op Res where
  exec := exec env
  body := fun _ call _ => some (body env call)
  reboot := fun w => some { w with auths := [] }
  memory := fun _ _ => ()

namespace Sample

def env : Env where
  toCrypto := Database.Sample.crypto
  parseDateTime _ := none
  parseDate _ := none
  addDays now days := now + days

/-- One thread serves a request whose handler sends so many statements. -/
def serve (request : Request) (statements : Nat) : List (Label Nat (fun _ => Call) Fate) :=
  .enter 0 (.request request) :: List.replicate statements (.step 0 {}) ++ [.leave 0]

end Sample

end TrojanGo.Accounts
