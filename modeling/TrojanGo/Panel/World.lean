import TrojanGo.Lib.Prog
import TrojanGo.Lib.Table
import TrojanGo.Master.TrafficValues
import Mathlib.Logic.Function.Basic

/-!
# The state behind the panel's logins

What logins, password changes and session checks share. Random values never repeat and signatures
cannot be forged. The history beside the state numbers the password
changes; credentials and tokens carry the number of the change they stem from.
-/
namespace TrojanGo.Panel

open Lib
open Master (Time)

/-! ### Constants -/

def second : Time := 1000000000

def minute : Time := 60 * second

def loginFailureLimit : Nat := 5

def loginFailureWindow : Time := 15 * minute

def maxRateLimitEntries : Nat := 10000

def sessionIdleTimeout : Time := 30 * minute

/-! ### Credentials and tokens -/

structure Bcrypt where
  hash : (salt password : String) → String
  verify : (stored password : String) → Bool
  tagged : ∀ salt password, "$2a$".toList <+: (hash salt password).toList

/-- Whether a stored password lets an attempt in: as a hash if it looks like one, else as
plain text. -/
def Bcrypt.accepts (bcrypt : Bcrypt) (stored attempt : String) : Bool :=
  if "$2a$".toList <+: stored.toList then bcrypt.verify stored attempt
  else decide (attempt = stored)

def utf8 (text : String) : List UInt8 := text.toUTF8.data.toList

/-- What `bcrypt` makes its key of: the bytes of the password and a zero, over and over. -/
def bcryptKey (password : String) : List UInt8 :=
  let bytes := utf8 password ++ [0]
  (List.range 72).map fun i => bytes.getD (i % bytes.length) 0

/-- What the server is started with. -/
structure Env where
  bcrypt : Bcrypt
  configUser : String
  configPass : String

/-- The signing key drawn by the password change with this number; the first key is 0. -/
abbrev Key := Nat

abbrev Jti := Nat

/-- A stored password and the number of the change it stems from. -/
structure StoredPassword where
  text : String
  change : Nat := 0
  deriving DecidableEq

structure Creds where
  user : String
  pass : String
  change : Nat
  deriving DecidableEq

/-- A signed token; `change` is the number of the credentials it was issued for. -/
structure Token where
  key : Key
  user : String
  jti : Option Jti
  exp : Time
  change : Nat
  deriving DecidableEq

/-- What `jwt.Parse` checks with the given key. -/
def Token.Verifies (token : Token) (key : Key) (now : Time) : Prop :=
  token.key = key ∧ now < token.exp

/-! ### Login failures -/

structure RateLimitEntry where
  count : Nat
  resetAt : Time
  deriving DecidableEq

def rateLimitExceeded (now : Time) (entries : Table String RateLimitEntry) (key : String)
    (limit : Nat) : Bool × Table String RateLimitEntry :=
  match entries.lookup key with
  | none => (false, entries)
  | some entry =>
    if now < entry.resetAt then (decide (limit ≤ entry.count), entries)
    else (false, entries.erase key)

/-- One more event in the window of an entry, or the first of a new window. -/
def countEvent (now window : Time) : Option RateLimitEntry → RateLimitEntry
  | none => ⟨1, now + window⟩
  | some entry =>
    if now < entry.resetAt then ⟨entry.count + 1, entry.resetAt⟩ else ⟨1, now + window⟩

/-- A full table is freed of closed windows before it is written to. -/
def makeRoom (now : Time) (entries : Table String RateLimitEntry) : Table String RateLimitEntry :=
  if maxRateLimitEntries ≤ entries.size then entries.filter fun entry => now < entry.2.resetAt
  else entries

def recordRateLimitEvent (now : Time) (entries : Table String RateLimitEntry) (key : String)
    (window : Time) : Table String RateLimitEntry :=
  let freed := makeRoom now entries
  if maxRateLimitEntries ≤ freed.size then freed
  else freed.insert key (countEvent now window (freed.lookup key))

/-! ### Requests -/

structure AdminUpdate where
  username : String := ""
  password : String := ""
  deriving DecidableEq

/-- A body that cannot be decoded, or a token that cannot be parsed, is absent. -/
inductive Request where
  | login (clientIP : String) (body : Option AdminUpdate)
  | update (token : Option Token) (body : Option AdminUpdate)
  | session (token : Option Token)
  deriving DecidableEq

inductive Reply where
  | error (status : Nat) (text : String)
  | token (token : Token)
  /-- the credentials are updated, with the number of the password change if it was one -/
  | updated (change : Option Nat)
  | granted
  deriving DecidableEq

/-- What happened to sessions. -/
inductive Event where
  /-- a login ended or an accepted request was noted -/
  | active (jti : Jti) (time : Time)
  /-- a session check found this in the table of session activity -/
  | looked (jti : Jti) (time : Time) (entry : Option Time)
  /-- a request was let through by the check made at this time -/
  | accepted (jti : Jti) (time : Time)
  deriving DecidableEq

/-! ### The state -/

structure World where
  /- the database -/
  username : Option String := none
  password : Option StoredPassword := none
  storedKey : Key := 0
  /- the memory of the process -/
  cache : Option Creds := none
  credMu : Bool := false
  key : Key := 0
  sessions : Table Jti Time := {}
  loginFailures : Table String RateLimitEntry := {}
  /- clock and random identifiers -/
  clock : Time := 0
  nextJti : Jti := 0
  /- the history: passwords set by changes, the last one first, and the keys put in force -/
  changes : List String := []
  installed : List Key := []
  issued : List Token := []
  events : List Event := []
  /-- the logins between their rate limit check and its outcome -/
  flights : List (Nat × String) := []
  /-- the windows of failed logins, as a table without a bound would hold them -/
  windows : String → Option RateLimitEntry := fun _ => none
  replies : List (Request × Reply) := []

/-- A server that starts on a database of an earlier version or of its own. -/
def World.start (username : Option String) (password : Option String) (clock : Time) : World where
  username := username
  password := password.map fun text => ⟨text, 0⟩
  clock := clock

/-- What a restart leaves; the signing key is loaded from the database. -/
def World.restart (w : World) : World :=
  { w with
    cache := none
    credMu := false
    key := w.storedKey
    sessions := {}
    loginFailures := {}
    flights := []
    windows := fun _ => none }

/-! ### Operations -/

/-- The statement of the credential transaction that fails. -/
inductive TxStage where
  | start
  | username
  | password
  | jwtSecret
  | commit
  deriving DecidableEq

def TxStage.text : TxStage → String
  | .start => "开启管理员凭据事务失败"
  | .username => "管理员用户名保存失败"
  | .password => "管理员密码保存失败"
  | .jwtSecret => "会话密钥轮换失败"
  | .commit => "提交凭据事务失败"

/-- Whether the transaction of an update has this stage. -/
def AdminUpdate.reaches (update : AdminUpdate) : TxStage → Bool
  | .start | .commit => true
  | .username => update.username ≠ ""
  | .password | .jwtSecret => update.password ≠ ""

structure Fate where
  elapsed : Nat := 0
  ok : Bool := true
  committed : Bool := false
  salt : String := ""
  failure : Option TxStage := none

inductive Op where
  | now
  /- credentials -/
  | readCache
  | lockCreds
  | lockedCache
  | adminUsername
  | adminPassword
  | setCache (creds : Creds)
  | unlockCreds
  | invalidateCache
  | hashPassword (password : String)
  | upgradePassword (hash : String) (change : Nat)
  | updateCredentials (update : AdminUpdate)
  /- tokens and sessions -/
  | drawJti
  | sign (user : String) (jti : Jti) (exp : Time) (change : Nat)
  | signingKey
  | setSigningKey (key : Key)
  | sessionKeys
  | deleteSession (jti : Jti)
  | storeActivity (jti : Jti)
  | loadActivity (jti : Jti)
  | accept (jti : Jti) (time : Time)
  /- login failures; the thread that serves the login is noted -/
  | rateLimitExceeded (thread : Nat) (clientIP : String)
  | recordFailure (thread : Nat) (clientIP : String)
  | clearFailures (thread : Nat) (clientIP : String)
  | reply (thread : Nat) (request : Request) (answer : Reply)

@[reducible] def Res : Op → Type
  | .now => Time
  | .readCache | .lockedCache => Option Creds
  | .adminUsername => Option (Option String)
  | .adminPassword => Option (Option StoredPassword)
  | .hashPassword _ => Option String
  | .upgradePassword _ _ => Bool
  | .updateCredentials _ => Except String (Option Key)
  | .drawJti => Option Jti
  | .sign _ _ _ _ => Token
  | .signingKey => Key
  | .sessionKeys => List Jti
  | .loadActivity _ => Option Time × Time
  | .rateLimitExceeded _ _ => Bool
  | .lockCreds | .setCache _ | .unlockCreds | .invalidateCache | .setSigningKey _
  | .deleteSession _ | .storeActivity _ | .accept _ _ | .recordFailure _ _ | .clearFailures _ _
  | .reply _ _ _ => Unit

/-- The transaction of an update, committed. -/
def World.commitUpdate (w : World) (bcrypt : Bcrypt) (salt : String) (update : AdminUpdate) :
    World :=
  let named := if update.username ≠ "" then { w with username := some update.username } else w
  if update.password ≠ "" then
    { named with
      password := some ⟨bcrypt.hash salt update.password, w.changes.length + 1⟩
      storedKey := w.changes.length + 1
      changes := update.password :: w.changes }
  else named

def World.updateCredentials (w : World) (bcrypt : Bcrypt) (fate : Fate) (update : AdminUpdate) :
    Except String (Option Key) × World :=
  let committed := w.commitUpdate bcrypt fate.salt update
  match fate.failure with
  | some stage =>
    if update.reaches stage then
      -- a commit may have gone through although its result was lost
      (.error stage.text, if stage = .commit ∧ fate.committed then committed else w)
    else (.ok (if update.password ≠ "" then some committed.storedKey else none), committed)
  | none => (.ok (if update.password ≠ "" then some committed.storedKey else none), committed)

/-- An answer that ends a login before its password was compared. -/
def Reply.endsEarly : Request → Reply → Bool
  | .login _ _, .error status _ => status = 400 ∨ status = 503
  | _, _ => false

/-- The client address of a login. -/
def Request.clientIP : Request → String
  | .login clientIP _ => clientIP
  | _ => ""

/-- How an operation acts, once the clock shows the time at which it is performed. -/
def perform (env : Env) (fate : Fate) (w : World) : (op : Op) → Option (Res op × World)
  | .now => some (w.clock, w)
  | .readCache => if w.credMu then none else some (w.cache, w)
  | .lockCreds => if w.credMu then none else some ((), { w with credMu := true })
  | .lockedCache => some (w.cache, w)
  | .adminUsername => some (if fate.ok then some w.username else none, w)
  | .adminPassword => some (if fate.ok then some w.password else none, w)
  | .setCache creds => some ((), { w with cache := some creds })
  | .unlockCreds => some ((), { w with credMu := false })
  | .invalidateCache => if w.credMu then none else some ((), { w with cache := none })
  | .hashPassword password =>
    some (if fate.ok then some (env.bcrypt.hash fate.salt password) else none, w)
  | .upgradePassword hash change =>
    some (fate.ok, if fate.ok ∨ fate.committed then { w with password := some ⟨hash, change⟩ }
      else w)
  | .updateCredentials update => some (w.updateCredentials env.bcrypt fate update)
  | .drawJti => some (if fate.ok then some w.nextJti else none, { w with nextJti := w.nextJti + 1 })
  | .sign user jti exp change =>
    let token : Token := ⟨w.key, user, some jti, exp, change⟩
    some (token, { w with issued := token :: w.issued })
  | .signingKey => some (w.key, w)
  | .setSigningKey key => some ((), { w with key := key, installed := key :: w.installed })
  | .sessionKeys => some (w.sessions.entries.map Prod.fst, w)
  | .deleteSession jti => some ((), { w with sessions := w.sessions.erase jti })
  | .storeActivity jti =>
    some ((), { w with
      sessions := w.sessions.insert jti w.clock
      events := .active jti w.clock :: w.events })
  | .loadActivity jti =>
    some ((w.sessions.lookup jti, w.clock),
      { w with events := .looked jti w.clock (w.sessions.lookup jti) :: w.events })
  | .accept jti time => some ((), { w with events := .accepted jti time :: w.events })
  | .rateLimitExceeded thread clientIP =>
    let checked := Panel.rateLimitExceeded w.clock w.loginFailures clientIP loginFailureLimit
    some (checked.1, { w with
      loginFailures := checked.2
      flights := if checked.1 then w.flights else (thread, clientIP) :: w.flights })
  | .recordFailure thread clientIP =>
    some ((), { w with
      loginFailures := recordRateLimitEvent w.clock w.loginFailures clientIP loginFailureWindow
      flights := w.flights.erase (thread, clientIP)
      windows := Function.update w.windows clientIP
        (some (countEvent w.clock loginFailureWindow (w.windows clientIP))) })
  | .clearFailures thread clientIP =>
    some ((), { w with
      loginFailures := w.loginFailures.erase clientIP
      flights := w.flights.erase (thread, clientIP)
      windows := Function.update w.windows clientIP none })
  | .reply thread request answer =>
    some ((), { w with
      flights := if answer.endsEarly request then w.flights.erase (thread, request.clientIP)
        else w.flights
      replies := (request, answer) :: w.replies })

def World.tick (w : World) (elapsed : Nat) : World := { w with clock := w.clock + elapsed }

def exec (env : Env) : Prog.Exec World Fate Op Res :=
  fun fate w op => perform env fate (w.tick fate.elapsed) op

end TrojanGo.Panel
