import TrojanGo.Master.Credentials
import TrojanGo.NodeSync.Wire
import TrojanGo.Panel.Validation

/-!
# Node administration beside the worker requests

A worker's request reads its node row and later saves the whole of it; an administrator's request
sends one statement for the columns it changes. Beside the database the state keeps the committed
changes, and which rows workers have read since the last change of that node.
-/
namespace TrojanGo.Nodes

open Lib Master Panel

/-- What the handlers use from outside the database. -/
structure Env where
  fingerprint : String → String
  cipher : Cipher
  parseIP : String → Bool

/-! ### Requests -/

/-- The body of an update; an absent text and an empty one are the same. -/
structure NodeUpdate where
  name : String := ""
  address : String := ""
  port : Option Int := none
  trafficRate : Option Binary64 := none
  wsEnabled : Option Bool := none
  wsPath : String := ""
  deriving DecidableEq

/-- The columns an update sets. -/
structure NodeEdit where
  name : Option String := none
  address : Option String := none
  port : Option Int := none
  trafficRate : Option Binary64 := none
  wsEnabled : Option Bool := none
  wsPath : Option String := none
  deriving DecidableEq

structure HeartbeatRequest where
  secret : String
  clientIP : String
  deriving DecidableEq

/-- The requests on nodes. The body of an update is decoded as one for the main node or as
one for another node; a decoder that fails says why. -/
inductive Request where
  | heartbeat (request : HeartbeatRequest)
  | update (id : Nat) (name : Except String String) (body : Except String NodeUpdate)
  | rotate (id : Nat)
  | delete (id : Nat)
  deriving DecidableEq

structure PublicNode where
  id : Nat
  name : String
  address : String
  detectedIP : String
  port : Int
  status : Int
  lastHeartbeat : Option Time
  trafficRate : Binary64
  wsEnabled : Bool
  wsPath : String
  sni : String
  deriving DecidableEq

def toPublicNode (node : Node) : PublicNode where
  id := node.id
  name := node.name
  address := node.address
  detectedIP := node.detectedIP
  port := node.port
  status := node.status
  lastHeartbeat := node.lastHeartbeat
  trafficRate := node.trafficRate
  wsEnabled := node.wsEnabled
  wsPath := node.wsPath
  sni := node.sni

inductive Reply where
  | error (status : Nat) (text : String)
  | ok
  | message (text : String)
  | rotated (node : PublicNode) (secret message : String)
  deriving DecidableEq

/-! ### Changes -/

/-- The 32 random bytes a new secret is made of. -/
abbrev SecretBytes := Fin 32 → Fin 256

/-- `hex.EncodeToString`. -/
def hexEncode (bytes : SecretBytes) : String :=
  String.ofList ((List.ofFn bytes).flatMap fun b =>
    [NodeSync.hexDigit (b / 16), NodeSync.hexDigit b])

/-- A committed administrator change. -/
inductive Change where
  | rotated (id : Nat) (bytes : SecretBytes) (ciphertext : String) (time : Time)
  | edited (id : Nat) (edit : NodeEdit)
  | deleted (id : Nat)

def Change.id : Change → Nat
  | .rotated id _ _ _ | .edited id _ | .deleted id => id

def NodeEdit.apply (edit : NodeEdit) (node : Node) : Node :=
  { node with
    name := edit.name.getD node.name
    address := edit.address.getD node.address
    port := edit.port.getD node.port
    trafficRate := edit.trafficRate.getD node.trafficRate
    wsEnabled := edit.wsEnabled.getD node.wsEnabled
    wsPath := edit.wsPath.getD node.wsPath }

/-- The columns `SetNodeSecret` writes. -/
def withSecret (fingerprint : String → String) (secret ciphertext : String) (now : Time)
    (node : Node) : Node :=
  { node with
    secret := "retired:" ++ toString node.id
    secretCiphertext := ciphertext
    secretHash := fingerprint secret
    secretKeyID := "default"
    secretRotatedAt := some now }

/-- Rewrite the rows with one id. -/
def onNode (id : Nat) (f : Node → Node) (nodes : List Node) : List Node :=
  nodes.map fun node => if node.id = id then f node else node

/-- The statement behind a change. -/
def Change.apply (fingerprint : String → String) : Change → List Node → List Node
  | .rotated id bytes ciphertext now =>
    onNode id (withSecret fingerprint (hexEncode bytes) ciphertext now)
  | .edited id edit => onNode id edit.apply
  | .deleted id => List.filter fun node => node.id ≠ id

/-! ### The state -/

structure World where
  master : Master.World
  siteTitle : Option String := none
  /-- the committed administrator changes, the last one first -/
  changes : List Change := []
  /-- the rows workers have read since the last change of that node -/
  read : List Node := []
  replies : List (Request × Reply) := []

abbrev World.nodes (w : World) : List Node := w.master.db.nodes

/-- A running master on a given database. -/
def World.start (db : Db) : World := { master := { db := db } }

structure Fate extends Master.Fate where
  random : SecretBytes := fun _ => 0
  nonce : String := ""
  text : String := ""

/-- Send the statement of a change, which may be committed although it reports failure. -/
def World.commit (w : World) (fingerprint : String → String) (fate : Fate) (change : Change) :
    Bool × World :=
  (fate.ok, if fate.ok ∨ fate.committed then
    { w with
      master := { w.master with
        db := { w.master.db with nodes := change.apply fingerprint w.nodes } }
      changes := change :: w.changes
      read := w.read.filter fun node => node.id ≠ change.id }
    else w)

/-! ### Statements -/

inductive Op where
  | master (op : Master.Op)
  | setSiteTitle (name : String)
  | findNode (id : Nat)
  | updateNode (id : Nat) (edit : NodeEdit)
  | randomBytes
  | setNodeSecret (id : Nat) (bytes : SecretBytes)
  | deleteNode (id : Nat)
  | reply (request : Request) (answer : Reply)

@[reducible] def Res : Op → Type
  | .master op => Master.Res op
  | .setSiteTitle _ => Except String Unit
  | .findNode _ => Option Node
  | .randomBytes => Option SecretBytes
  | .updateNode _ _ | .setNodeSecret _ _ | .deleteNode _ => Bool
  | .reply _ _ => Unit

/-- The node row a statement of the master's handlers reads. -/
def rowsRead : (op : Master.Op) → Master.Res op → List Node
  | .nodeBySecret _, row => row.toList
  | _, _ => []

def exec (env : Env) : Prog.Exec World Fate Op Res
  | fate, w, .master op => (Master.exec env.fingerprint fate.toFate w.master op).map fun done =>
    (done.1, { w with master := done.2, read := rowsRead op done.1 ++ w.read })
  | fate, w, .setSiteTitle name =>
    some (if fate.ok then .ok () else .error fate.text,
      if fate.ok ∨ fate.committed then { w with siteTitle := some name } else w)
  | fate, w, .findNode id =>
    some (if fate.ok then w.nodes.find? fun node => node.id = id else none, w)
  | fate, w, .updateNode id edit => some (w.commit env.fingerprint fate (.edited id edit))
  | fate, w, .randomBytes => some (if fate.ok then some fate.random else none, w)
  | fate, w, .setNodeSecret id bytes =>
    some (w.commit env.fingerprint fate (.rotated id bytes
      (encryptCredential env.cipher (nodeSecretPurpose id) fate.nonce (hexEncode bytes)) fate.time))
  | fate, w, .deleteNode id => some (w.commit env.fingerprint fate (.deleted id))
  | _, w, .reply request answer =>
    some ((), { w with replies := (request, answer) :: w.replies })

/-! ### Handlers -/

abbrev Handler := Prog Op Res

abbrev ask (op : Op) : Handler (Res op) := Prog.ask op

abbrev reply (request : Request) (answer : Reply) : Handler Unit := ask (.reply request answer)

/-- A handler of the master, as it stands. -/
def lift {α : Type} (handler : Master.Handler α) : Handler α :=
  Prog.embed Op.master (fun _ result => result) handler

def handleNodeHeartbeat (request : HeartbeatRequest) : Handler Unit := do
  if request.secret = "" then
    reply (.heartbeat request) (.error 401 "缺少通信密钥")
  else
    match ← ask (.master (.nodeBySecret request.secret)) with
    | none => reply (.heartbeat request) (.error 401 "无效的通信密钥")
    | some found => do
      let now ← ask (.master .now)
      if ← ask (.master (.saveNode (heartbeat found now request.clientIP))) then
        reply (.heartbeat request) .ok
      else reply (.heartbeat request) (.error 500 "心跳信息更新失败")

/-- The id under which the node list shows the master itself. -/
def mainNodeID : Nat := 999999

def present (text : String) : Option String := if text = "" then none else some text

/-- The validated columns of an update, field by field in the order of the handler. -/
def nodeUpdates (parseIP : String → Bool) (request : NodeUpdate) : Except String NodeEdit := do
  if request.name ≠ "" then validateNodeName request.name
  if request.address ≠ "" then validateNodeAddress parseIP request.address
  if request.port.any fun port => port < 1 ∨ port > 65535 then throw "端口必须在 1-65535 范围内"
  if request.trafficRate.any fun rate => (validateTrafficRate rate).toOption.isNone then
    throw "流量倍率必须大于 0 且不超过 1000"
  let path := if request.wsPath.toList.head? = some '/' then request.wsPath
    else "/" ++ request.wsPath
  if request.wsPath ≠ "" then validateWSPath path
  return {
    name := present request.name
    address := present request.address
    port := request.port
    trafficRate := request.trafficRate
    wsEnabled := request.wsEnabled
    wsPath := (present request.wsPath).map fun _ => path }

/-- An update of the main node renames the site. -/
def renameMainNode (request : Request) (name : String) : Handler Unit := do
  if name = "" then reply request (.message "主节点名称更新成功")
  else
    match ← ask (.setSiteTitle name) with
    | .error reason => reply request (.error 500 reason)
    | .ok () => reply request (.message "主节点名称更新成功")

def handleUpdateNode (env : Env) (id : Nat) (name : Except String String)
    (body : Except String NodeUpdate) : Handler Unit := do
  let request := Request.update id name body
  if id = mainNodeID then
    match name with
    | .error reason => reply request (.error 400 reason)
    | .ok name => renameMainNode request name
  else
    match body with
    | .error reason => reply request (.error 400 reason)
    | .ok update =>
      match ← ask (.findNode id) with
      | none => reply request (.error 404 "节点不存在")
      | some node =>
        match nodeUpdates env.parseIP update with
        | .error reason => reply request (.error 400 reason)
        | .ok edit =>
          if ← ask (.updateNode node.id edit) then reply request (.message "更新成功")
          else reply request (.error 500 "更新节点失败")

def handleRotateNodeSecret (id : Nat) : Handler Unit := do
  let request := Request.rotate id
  if id = mainNodeID then reply request (.error 400 "主节点没有 Worker 通信密钥")
  else
    match ← ask (.findNode id) with
    | none => reply request (.error 404 "节点不存在")
    | some node =>
      match ← ask .randomBytes with
      | none => reply request (.error 500 "无法生成节点通信密钥")
      | some bytes =>
        if ← ask (.setNodeSecret node.id bytes) then
          reply request (.rotated (toPublicNode node) (hexEncode bytes)
            "通信密钥已轮换；请立即更新对应 Worker 配置并重启服务")
        else reply request (.error 500 "节点通信密钥轮换失败")

def handleDeleteNode (id : Nat) : Handler Unit := do
  let request := Request.delete id
  match ← ask (.findNode id) with
  | none => reply request (.error 404 "节点不存在")
  | some node =>
    if ← ask (.deleteNode node.id) then reply request (.message "已删除")
    else reply request (.error 500 "删除节点失败")

inductive Call where
  | master (call : Master.Call)
  | request (request : Request)

def body (env : Env) : Call → Handler Unit
  | .master call => lift (Master.body call)
  | .request (.heartbeat request) => handleNodeHeartbeat request
  | .request (.update id name body) => handleUpdateNode env id name body
  | .request (.rotate id) => handleRotateNodeSecret id
  | .request (.delete id) => handleDeleteNode id

/-- The master with its node administration: any number of threads, crashes included. -/
def machine (env : Env) : Machine Nat World Fate (fun _ => Call) (fun _ => Unit) Op Res where
  exec := exec env
  body := fun _ call _ => some (body env call)
  reboot := some
  memory := fun _ _ => ()

end TrojanGo.Nodes
