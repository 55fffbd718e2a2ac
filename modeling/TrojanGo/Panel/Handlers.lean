import TrojanGo.Lib.Threads
import TrojanGo.Panel.World

/-!
# Logins, password changes and session checks

A login is preceded by the check of its rate limit, every other request by the session check. The
scheduler restarts the process at any point.
-/
namespace TrojanGo.Panel

open Lib
open Master (Time)

abbrev Handler := Prog Op Res

abbrev ask (op : Op) : Handler (Res op) := Prog.ask op

variable (env : Env)

/-- The credentials logins are checked against, from the cache or the database; none if the
database cannot be read. -/
def loadAdminCreds : Handler (Option Creds) := do
  match ← ask .readCache with
  | some creds => return some creds
  | none =>
    ask .lockCreds
    -- another login may have filled the cache in the meantime
    match ← ask .lockedCache with
    | some creds =>
      ask .unlockCreds
      return some creds
    | none =>
      match ← ask .adminUsername with
      | none =>
        ask .unlockCreds
        return none
      | some user =>
        match ← ask .adminPassword with
        | none =>
          ask .unlockCreds
          return none
        | some pass =>
          let creds : Creds := ⟨user.getD env.configUser,
            (pass.map StoredPassword.text).getD env.configPass,
            (pass.map StoredPassword.change).getD 0⟩
          ask (.setCache creds)
          ask .unlockCreds
          return some creds

/-- Whether the stored password is plain text. -/
def legacy (stored : String) : Bool := ¬ "$2a$".toList <+: stored.toList

/-- A password that matched as plain text is stored again as a hash. -/
def upgradeLegacyPassword (creds : Creds) (password : String) : Handler Unit := do
  match ← ask (.hashPassword password) with
  | none => return ()
  | some hash =>
    if ← ask (.upgradePassword hash creds.change) then ask .invalidateCache
    else return ()

/-- `time.Now().Add(24h).Unix()`, as a time. -/
def expiry (now : Time) : Time := (now + 24 * 60 * minute) / second * second

def updateSessionActivity (jti : Jti) : Handler Unit := ask (.storeActivity jti)

/-- The part of a login after its password was accepted. -/
def openSession (thread : Nat) (request : Request) (clientIP user : String) (creds : Creds) :
    Handler Unit := do
  ask (.clearFailures thread clientIP)
  match ← ask .drawJti with
  | none => ask (.reply thread request (.error 500 "会话初始化失败"))
  | some jti =>
    let now ← ask .now
    let token ← ask (.sign user jti (expiry now) creds.change)
    ask (.reply thread request (.token token))
    updateSessionActivity jti

def handleLogin (thread : Nat) (clientIP : String) (body : Option AdminUpdate) : Handler Unit := do
  let request := Request.login clientIP body
  match body with
  | none => ask (.reply thread request (.error 400 "无效请求"))
  | some login =>
    match ← loadAdminCreds env with
    | none => ask (.reply thread request (.error 503 "认证服务暂时不可用，请稍后重试"))
    | some creds =>
      if login.username = creds.user ∧ env.bcrypt.accepts creds.pass login.password then
        if legacy creds.pass then upgradeLegacyPassword creds login.password
        openSession thread request clientIP login.username creds
      else
        ask (.recordFailure thread clientIP)
        ask (.reply thread request (.error 401 "用户名或密码错误"))

/-- `enforceLoginRateLimit` in front of the login. -/
def login (thread : Nat) (clientIP : String) (body : Option AdminUpdate) : Handler Unit := do
  if ← ask (.rateLimitExceeded thread clientIP) then
    ask (.reply thread (.login clientIP body) (.error 429 "登录尝试过于频繁，请稍后再试"))
  else handleLogin env thread clientIP body

def deleteSessions : List Jti → Handler Unit
  | [] => return ()
  | jti :: rest => do
    ask (.deleteSession jti)
    deleteSessions rest

/-- The key is swapped first; then the tracked sessions are dropped one by one. -/
def setJWTSecret (key : Key) : Handler Unit := do
  ask (.setSigningKey key)
  let tracked ← ask .sessionKeys
  deleteSessions tracked

def handleUpdateAdmin (thread : Nat) (token : Option Token) (body : Option AdminUpdate) :
    Handler Unit := do
  let request := Request.update token body
  match body with
  | none => ask (.reply thread request (.error 400 "无效请求"))
  | some update =>
    if update.username = "" ∧ update.password = "" then
      ask (.reply thread request (.updated none))
    else
      match ← ask (.updateCredentials update) with
      | .error reason => ask (.reply thread request (.error 500 reason))
      | .ok none =>
        ask .invalidateCache
        ask (.reply thread request (.updated none))
      | .ok (some key) =>
        setJWTSecret key
        ask .invalidateCache
        ask (.reply thread request (.updated (some key)))

/-- Whether the table of session activity shows a session as idle for too long; a session
it does not show is not expired. With the time of the lookup. -/
def isSessionExpired (jti : Jti) (maxIdle : Time) : Handler (Bool × Time) := do
  match ← ask (.loadActivity jti) with
  | (none, looked) => return (false, looked)
  | (some lastSeen, looked) =>
    let now ← ask .now
    return (decide (now - lastSeen > maxIdle), looked)

/-- Whether the request may proceed; otherwise it was answered. -/
def enforceSessionIdleTimeout (thread : Nat) (request : Request) (token : Token) :
    Handler Bool := do
  match token.jti with
  | none =>
    ask (.reply thread request (.error 401 "会话令牌缺少会话标识，请重新登录"))
    return false
  | some jti =>
    let (expired, looked) ← isSessionExpired jti sessionIdleTimeout
    if expired then
      ask (.reply thread request (.error 401 "会话已过期，请重新登录"))
      return false
    else
      ask (.accept jti looked)
      updateSessionActivity jti
      return true

/-- The signature is checked before the expiry. -/
def verifyJWT (token : Token) : Handler Bool := do
  let key ← ask .signingKey
  if token.key = key then
    let now ← ask .now
    return decide (now < token.exp)
  else return false

def requireAdminSession (thread : Nat) (request : Request) (token : Option Token) :
    Handler Bool := do
  match token with
  | none =>
    ask (.reply thread request (.error 401 "需要管理员会话"))
    return false
  | some token =>
    if ← verifyJWT token then enforceSessionIdleTimeout thread request token
    else
      ask (.reply thread request (.error 401 "需要管理员会话"))
      return false

/-- Every request behind the session check but those modelled by themselves. -/
def session (thread : Nat) (token : Option Token) : Handler Unit := do
  if ← requireAdminSession thread (.session token) token then
    ask (.reply thread (.session token) .granted)
  else return ()

def update (thread : Nat) (token : Option Token) (body : Option AdminUpdate) : Handler Unit := do
  if ← requireAdminSession thread (.update token body) token then
    handleUpdateAdmin thread token body
  else return ()

def body (thread : Nat) : Request → Handler Unit
  | .login clientIP body => login env thread clientIP body
  | .update token body => update thread token body
  | .session token => session thread token

/-! ### Whose operations -/

/-- The operation is one of this thread. -/
def Op.Of (thread : Nat) : Op → Prop
  | .rateLimitExceeded thread' _ | .recordFailure thread' _ | .clearFailures thread' _
  | .reply thread' _ _ => thread' = thread
  | _ => True

/-- An operation of this thread that records no failed login. -/
def Op.Calm (thread : Nat) : Op → Prop
  | .recordFailure _ _ => False
  | op => op.Of thread

/-- The panel: any number of threads, each serving one request after another. -/
def machine : Machine Nat World Fate (fun _ => Request) (fun _ => Unit) Op Res where
  exec := exec env
  body := fun thread request _ => some (body env thread request)
  reboot := fun w => some w.restart
  memory := fun _ _ => ()

/-! ### A server to run requests on -/

namespace Sample

/-- A hash that is the password behind the tag. -/
def bcrypt : Bcrypt where
  hash _ password := "$2a$" ++ password
  verify stored password := bcryptKey password = bcryptKey (String.ofList (stored.toList.drop 4))
  tagged _ password := by
    rw [String.toList_append]
    exact List.prefix_append _ _

def server : Env where
  bcrypt := bcrypt
  configUser := "admin"
  configPass := "admin"

/-- The token of a first login at time 0. -/
def token : Token := ⟨0, "admin", some 0, expiry 0, 0⟩

/-- The token of a second login with the password `old` under the key of a change. -/
def lateToken : Token := ⟨1, "admin", some 1, expiry 0, 0⟩

def steps (thread count : Nat) : List (Label Nat (fun _ => Request) Fate) :=
  List.replicate count (.step thread {})

/-- A thread serves a request from beginning to end. -/
def serve (thread : Nat) (request : Request) (count : Nat) :
    List (Label Nat (fun _ => Request) Fate) :=
  .enter thread request :: steps thread count ++ [.leave thread]

end Sample

end TrojanGo.Panel
