import TrojanGo.Database.Migrations
import TrojanGo.Panel.World

/-!
# Subscriptions and their cache

The history beside the state numbers the database: every write makes a new version. A document
carries the version its first read saw, and a mutating request the version that its last write
made.
-/
namespace TrojanGo.Subscriptions

open Lib Master Database
open Panel (second)

/-! ### Requests -/

inductive Method where
  | get
  | head
  | post
  | put
  | delete
  deriving DecidableEq

structure SubRequest where
  token : String
  ifNoneMatch : String := ""
  deriving DecidableEq

/-- What `getMainNodeInfo` finds in the configuration files. -/
structure MainNode where
  domain : String := ""
  port : Int := 443
  wsEnabled : Bool := false
  wsPath : String := ""
  deriving DecidableEq

structure Entry where
  body : String
  etag : String
  expiresAt : Time
  /-- the version that the first read of its data saw -/
  asOf : Nat
  deriving DecidableEq

/-- The reply to a request of the administrator. -/
structure Reply where
  status : Nat
  text : String
  deriving DecidableEq

def Reply.success (reply : Reply) : Bool := 200 ≤ reply.status ∧ reply.status < 300

inductive SubReply where
  | maskPage
  | error (status : Nat) (text : String)
  | notModified (entry : Entry)
  | document (entry : Entry) (filename : String)
  deriving DecidableEq

/-- The document a client goes on with after the reply. -/
def SubReply.entry : SubReply → Option Entry
  | .notModified entry | .document entry _ => some entry
  | .maskPage | .error _ _ => none

/-- What a configuration document is rendered from. -/
structure Inputs where
  user : User
  password : String
  nodes : List Node
  main : MainNode
  rules : String
  providers : String
  hysteria : Bool
  configs : List (String × String)

structure Env where
  crypto : Crypto
  isNode : Bool := false
  serverDomain : String := ""
  render : Inputs → String
  validYAML : String → Bool
  /-- the quoted digest of a document -/
  digest : String → String

/-! ### The state -/

structure Answer where
  /-- the newest version of a mutating request that had succeeded when this request arrived -/
  since : Nat
  reply : SubReply
  deriving DecidableEq

structure World where
  store : Store
  cache : Table String Entry := {}
  clock : Time := 0
  version : Nat := 0
  /-- the mutating requests between their invalidation and their reply, with the version
  that their last write made -/
  pending : Table Nat Nat := {}
  /-- the newest version made by a mutating request that has replied with success -/
  returned : Nat := 0
  answers : List Answer := []

/-- What a restart leaves. -/
def World.restart (w : World) : World := { w with cache := {}, pending := {} }

/-- What a handler does with the database: it reads rows, or it runs a statement or a
transaction that may be refused. -/
inductive Statement where
  | select
  | write (change : Store → Option Store)

/-- The rows as they are after the statement, if it succeeded. -/
@[reducible] def Statement.Res : Statement → Type := fun _ => Option Store

abbrev Handler := Prog Statement Statement.Res Reply

abbrev query (statement : Statement) : Prog Statement Statement.Res (Option Store) :=
  Prog.ask statement

/-- A `First` query tells a missing row from a failure. -/
inductive Lookup where
  | found (value : String)
  | missing
  | failed
  deriving DecidableEq

inductive Op where
  | arrive
  | now
  | findUser (token : String)
  | getMainNodeInfo
  | getSubscriptionCache (key : String)
  | findNodes
  | findConfig (key : String)
  | findConfigs (keys : List String)
  | cacheSubscription (key body : String) (asOf : Nat)
  | answer (since : Nat) (reply : SubReply)
  | invalidateSubscriptionCache (thread : Nat)
  | requireAdminSession
  | statement (thread : Nat) (statement : Statement)
  | respond (thread : Nat) (reply : Reply)

@[reducible] def Res : Op → Type
  | .arrive => Nat
  | .now => Time
  | .findUser _ => Option (User × Nat)
  | .getMainNodeInfo => MainNode
  | .getSubscriptionCache _ => Option Entry
  | .findNodes => Option (List Node)
  | .findConfig _ => Lookup
  | .findConfigs _ => Option (List (String × String))
  | .cacheSubscription _ _ _ => Entry
  | .requireAdminSession => Option Reply
  | .statement _ statement => statement.Res
  | .answer _ _ | .invalidateSubscriptionCache _ | .respond _ _ => Unit

/-- How an operation fares: whether a query succeeds, whether a write that reports a failure
was committed all the same, how much time has passed, what the configuration files hold and
whether the session is refused. -/
structure Fate where
  ok : Bool := true
  committed : Bool := false
  elapsed : Nat := 0
  main : MainNode := {}
  refusal : Option Reply := none

def subscriptionCacheTTL : Time := 15 * second

/-- An entry past its time is deleted by the lookup that finds it. -/
def getSubscriptionCache (now : Time) (cache : Table String Entry) (key : String) :
    Option Entry × Table String Entry :=
  match cache.lookup key with
  | none => (none, cache)
  | some entry => if now < entry.expiresAt then (some entry, cache) else (none, cache.erase key)

/-- A write of a request that has emptied the cache is noted under that request. -/
def World.commit (w : World) (thread : Nat) (store : Store) : World :=
  { w with
    store := store
    version := w.version + 1
    pending := if (w.pending.lookup thread).isSome then w.pending.insert thread (w.version + 1)
      else w.pending }

def World.respond (w : World) (thread : Nat) (reply : Reply) : World :=
  { w with
    pending := w.pending.erase thread
    returned := if reply.success then max w.returned ((w.pending.lookup thread).getD 0)
      else w.returned }

def execStatement (fate : Fate) (w : World) (thread : Nat) : Statement → Option Store × World
  | .select => (if fate.ok then some w.store else none, w)
  | .write change =>
    match change w.store with
    | none => (none, w)
    | some store =>
      if fate.ok then (some store, w.commit thread store)
      else (none, if fate.committed then w.commit thread store else w)

variable (env : Env)

def perform (fate : Fate) (w : World) : (op : Op) → Res op × World
  | .arrive => (w.returned, w)
  | .now => (w.clock, w)
  | .findUser token =>
    let row := w.store.db.users.find? fun u => u.hash = token ∧ u.status = 0
    (if fate.ok then row.map fun u => (u, w.version) else none, w)
  | .getMainNodeInfo => (fate.main, w)
  | .getSubscriptionCache key =>
    let (found, cache) := getSubscriptionCache w.clock w.cache key
    (found, { w with cache := cache })
  | .findNodes => (if fate.ok then some w.store.db.nodes else none, w)
  | .findConfig key =>
    let row := (w.store.configs.lookup key).elim Lookup.missing .found
    (if fate.ok then row else .failed, w)
  | .findConfigs keys =>
    let rows := w.store.configs.entries.filter fun row => row.1 ∈ keys
    (if fate.ok then some rows else none, w)
  | .cacheSubscription key body asOf =>
    let entry := ⟨body, env.digest body, w.clock + subscriptionCacheTTL, asOf⟩
    (entry, { w with cache := w.cache.insert key entry })
  | .answer since reply => ((), { w with answers := ⟨since, reply⟩ :: w.answers })
  | .invalidateSubscriptionCache thread =>
    ((), { w with cache := {}, pending := w.pending.insert thread 0 })
  | .requireAdminSession => (fate.refusal, w)
  | .statement thread statement => execStatement fate w thread statement
  | .respond thread reply => ((), w.respond thread reply)

def exec (fate : Fate) (w : World) (op : Op) : Option (Res op × World) :=
  some (perform env fate { w with clock := w.clock + fate.elapsed } op)

/-! ### Serving a subscription -/

abbrev Serve := Prog Op Res

abbrev ask (op : Op) : Serve (Res op) := Prog.ask op

/-- A setting; a failed query counts as an absent one. -/
def Lookup.text : Lookup → String
  | .found value => value
  | .missing | .failed => ""

def batchKeys : List String :=
  ["hysteria_port", "hysteria_up_mbps", "hysteria_down_mbps", "node_location", "clash_test_url",
    "sub_use_ws"]

/-- The text itself is a function of what was read. -/
def renderClashConfigMultiNode (user : User) (password : String) (nodes : List Node)
    (main : MainNode) (rules providers : String) : Serve String := do
  let hysteria ← ask (.findConfig "hysteria_enabled")
  let configs ← ask (.findConfigs batchKeys)
  return env.render
    { user := user, password := password, nodes := nodes, main := main
      rules := rules, providers := providers
      hysteria := hysteria = Lookup.found "true", configs := Option.getD configs [] }

def generateClashConfigMultiNode (user : User) (password : String) (nodes : List Node)
    (main : MainNode) : Serve String := do
  let rules := Lookup.text (← ask (.findConfig "clash_rules"))
  let providers := Lookup.text (← ask (.findConfig "clash_rule_providers"))
  let config ← renderClashConfigMultiNode env user password nodes main rules providers
  if env.validYAML config then return config
  -- without fragments of the operator there is nothing to drop
  if rules = "" ∧ providers = "" then return config
  renderClashConfigMultiNode env user password nodes main "" ""

def cacheKey (user : User) (main : MainNode) : String :=
  String.intercalate "\x00"
    [user.hash, main.domain, toString main.port, toString main.wsEnabled, main.wsPath]

def sanitizeFilename (name : String) : String :=
  if name = "" then "config"
  else
    let unsafeChars := ['\r', '\n', '\x00', '"', '\'', '\\', '/', ':']
    let safe := trimSpace (name.map fun c => if c ∈ unsafeChars then '_' else c)
    if safe = "" then "config" else safe

/-- The part of `handleSub` after the checks: a document from the cache, or a new one. -/
def subscriptionEntry (user : User) (password : String) (asOf : Nat) (main : MainNode) :
    Serve (Option Entry) := do
  match ← ask (.getSubscriptionCache (cacheKey user main)) with
  | some entry => return some entry
  | none =>
    match ← ask .findNodes with
    | none => return none
    | some nodes =>
      let config ← generateClashConfigMultiNode env user password nodes main
      return some (← ask (.cacheSubscription (cacheKey user main) config asOf))

def expired (user : User) : Serve Bool := do
  match user.expiryTime with
  | none => return false
  | some expiry =>
    if expiry = 0 then return false
    return expiry < (← ask .now)

/-- The published address comes from the operator, never from the request. -/
def canonical (main : MainNode) : MainNode :=
  if main.domain = "" then { main with domain := env.serverDomain } else main

def subscription (request : SubRequest) : Serve SubReply := do
  if env.isNode then return .maskPage
  if request.token = "" then return .error 400 "Missing token"
  match ← ask (.findUser request.token) with
  | none => return .error 404 "Invalid token or user disabled"
  | some (user, asOf) =>
    if ← expired user then return .error 403 "User expired"
    match userPassword env.crypto user with
    | none | some "" => return .error 500 "Subscription credential unavailable"
    | some password =>
      let main := canonical env (← ask .getMainNodeInfo)
      if main.domain = "" then
        return .error 500 "服务域名未配置，请在面板设置中配置 canonical domain"
      match ← subscriptionEntry env user password asOf main with
      | none => return .error 500 "节点数据不可用，请稍后重试"
      | some entry =>
        if request.ifNoneMatch = entry.etag then return .notModified entry
        return .document entry ("clash-" ++ sanitizeFilename user.username ++ ".yaml")

def handleSub (request : SubRequest) : Serve Unit := do
  let since ← ask .arrive
  let reply ← subscription env request
  ask (.answer since reply)

/-! ### Requests of the administrator -/

def invalidateSubscriptionAfterMutation (thread : Nat) (method : Method) (next : Serve Unit) :
    Serve Unit := do
  if method ≠ .get ∧ method ≠ .head then
    ask (.invalidateSubscriptionCache thread)
    next
  else next

/-- The chain of `registerAdminRoutes` in front of a handler. -/
def adminRequest (thread : Nat) (method : Method) (handler : Handler) : Serve Unit :=
  invalidateSubscriptionAfterMutation thread method do
    match ← ask .requireAdminSession with
    | some refusal => ask (.respond thread refusal)
    | none =>
      let reply ← handler.embed (.statement thread) fun _ rows => rows
      ask (.respond thread reply)

def handleDeleteNode (id : Nat) : Handler := do
  match (← query .select).bind fun store => store.db.nodes.find? (·.id = id) with
  | none => return ⟨404, "节点不存在"⟩
  | some node =>
    let delete := fun store : Store =>
      { store with db := { store.db with nodes := store.db.nodes.filter (·.id ≠ node.id) } }
    match ← query (.write fun store => some (delete store)) with
    | none => return ⟨500, "删除节点失败"⟩
    | some _ => return ⟨200, "已删除"⟩

/-! ### The machine -/

inductive Call where
  | sub (request : SubRequest)
  | admin (method : Method) (handler : Handler)

def body (thread : Nat) : Call → Serve Unit
  | .sub request => handleSub env request
  | .admin method handler => adminRequest thread method handler

/-- Any number of requests of both kinds, and restarts of the server. A request with method
GET stands for everything that writes the tables without emptying the cache. -/
def machine : Machine Nat World Fate (fun _ => Call) (fun _ => Unit) Op Res where
  exec := exec env
  body := fun thread call _ => some (body env thread call)
  reboot := fun w => some w.restart
  memory := fun _ _ => ()

end TrojanGo.Subscriptions
