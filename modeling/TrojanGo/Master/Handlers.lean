import TrojanGo.Lib.Threads
import TrojanGo.Master.TrafficValues

/-!
# The traffic handlers of the master

Each handler is a program over the statements it sends to the database; a transaction is one of
them. Beside the database the state keeps which batches reached a transaction, which were
accounted for, which receipts were purged, and what was answered.
-/
namespace TrojanGo.Master

open Lib

/-! ### Requests -/

/-- A request body: the traffic its first JSON value decodes to, and how many bytes have
to be read to reach the end of that value. -/
structure Body where
  traffic : Option TrafficMap
  extent : Nat

def maxAdminRequestBody : Nat := 2 ^ 20

/-- Decoding behind the reader that `limitRequestBody` installs. -/
def Body.bind (body : Body) : Option TrafficMap :=
  if body.extent ≤ maxAdminRequestBody then body.traffic else none

structure NodeSyncRequest where
  secret : String
  syncID : String
  clientIP : String
  body : Body

structure DataPlaneRequest where
  syncID : String
  body : Body

inductive Request where
  | nodeSync (request : NodeSyncRequest)
  | dataPlaneTraffic (request : DataPlaneRequest)

inductive Answer where
  | error (status : Nat) (text : String)
  | users (hashes : List String)
  | ok
  deriving DecidableEq, Repr

/-! ### Transactions -/

/-- Who sent a batch, as far as receipts tell senders apart. -/
inductive Source where
  | node (id : Nat)
  | dataPlane
  deriving DecidableEq, Repr

instance : LawfulBEq (Source × String) := inferInstance

/-- `FirstOrCreate`: whether a row was created. -/
def firstOrCreateNodeSyncReceipt (now : Time) (nodeID : Nat) (syncID : String) : Tx Bool :=
  fun db =>
    if absent : (nodeID, syncID) ∉ db.nodeReceipts.map NodeSyncReceipt.key then
      .ok (true, { db with
        nodeReceipts := ⟨now, nodeID, syncID⟩ :: db.nodeReceipts
        nodeReceiptIndex := List.nodup_cons.mpr ⟨absent, db.nodeReceiptIndex⟩ })
    else .ok (false, db)

def firstOrCreateDataPlaneSyncReceipt (now : Time) (syncID : String) : Tx Bool :=
  fun db =>
    if absent : syncID ∉ db.dataPlaneReceipts.map DataPlaneSyncReceipt.syncID then
      .ok (true, { db with
        dataPlaneReceipts := ⟨now, syncID⟩ :: db.dataPlaneReceipts
        dataPlaneReceiptIndex := List.nodup_cons.mpr ⟨absent, db.dataPlaneReceiptIndex⟩ })
    else .ok (false, db)

abbrev Increments := List (String × TrafficIncrement)

def trafficIncrements (rate : Binary64) : List (Σ _ : String, Traffic) → Except TxError Increments
  | [] => .ok []
  | ⟨hash, traffic⟩ :: rest => do
    let increment ← newTrafficIncrement traffic.up traffic.down rate
    let others ← trafficIncrements rate rest
    return (hash, increment) :: others

def persistTrafficIncrements : Increments → Tx Unit
  | [] => pure ()
  | (hash, increment) :: rest => do
    persistTrafficIncrement hash increment
    persistTrafficIncrements rest

/-- The part both handlers' transactions share: a batch whose receipt was already there
is left alone, a new one is converted as a whole and then stored. -/
def accountBatch (create : Tx Bool) (rate : Binary64) (entries : List (Σ _ : String, Traffic)) :
    Tx Unit := do
  if ← create then
    let increments ← liftM (trafficIncrements rate entries)
    persistTrafficIncrements increments

def nodeTrafficTx (now : Time) (node : Node) (syncID : String) (traffic : TrafficMap) : Tx Unit :=
  accountBatch (firstOrCreateNodeSyncReceipt now node.id syncID) node.trafficRate traffic.entries

/-- The data plane's transaction skips unnamed users before it converts. -/
def named (traffic : TrafficMap) : List (Σ _ : String, Traffic) :=
  traffic.entries.filter fun entry => entry.1 ≠ ""

def dataPlaneTrafficTx (now : Time) (syncID : String) (traffic : TrafficMap) : Tx Unit :=
  accountBatch (firstOrCreateDataPlaneSyncReceipt now syncID) (.ofNat 1) (named traffic)

/-! ### Other statements -/

def Db.nodeBySecret (fingerprint : String → String) (db : Db) (secret : String) : Option Node :=
  match db.nodes.find? fun node => node.secretHash = fingerprint secret with
  | some node => some node
  | none => db.nodes.find? fun node => node.secret = secret ∧ node.secretCiphertext = ""

/-- `Save` updates the row with this id and inserts it if there is none. -/
def Db.saveNode (db : Db) (node : Node) : Db :=
  if db.nodes.any fun other => other.id = node.id then
    { db with nodes := db.nodes.map fun other => if other.id = node.id then node else other }
  else { db with nodes := node :: db.nodes }

def retention : Time := 30 * 24 * 60 * 60 * 1000000000

def Db.cleanupNodeReceipts (db : Db) (now : Time) : Db :=
  { db with
    nodeReceipts := db.nodeReceipts.filter fun r => ¬ r.createdAt < now - retention
    nodeReceiptIndex := db.nodeReceiptIndex.sublist (List.filter_sublist.map _) }

def Db.cleanupDataPlaneReceipts (db : Db) (now : Time) : Db :=
  { db with
    dataPlaneReceipts := db.dataPlaneReceipts.filter fun r => ¬ r.createdAt < now - retention
    dataPlaneReceiptIndex := db.dataPlaneReceiptIndex.sublist (List.filter_sublist.map _) }

/-- The keys of all receipts, with the sender each stands for. -/
def Db.receipts (db : Db) : List (Source × String) :=
  db.nodeReceipts.map (fun r => (.node r.nodeID, r.syncID)) ++
    db.dataPlaneReceipts.map fun r => (.dataPlane, r.syncID)

/-! ### The state and its history -/

/-- A batch that reached a transaction. -/
structure Batch where
  source : Source
  syncID : String
  traffic : TrafficMap

/-- The entries a batch's transaction converts. -/
def Batch.entries (batch : Batch) : List (Σ _ : String, Traffic) :=
  match batch.source with
  | .node _ => batch.traffic.entries
  | .dataPlane => named batch.traffic

def Batch.key (batch : Batch) : Source × String := (batch.source, batch.syncID)

/-- A batch whose increments were committed. -/
structure Accounted where
  source : Source
  syncID : String
  rate : Binary64
  increments : Increments
  deriving DecidableEq

def Accounted.key (batch : Accounted) : Source × String := (batch.source, batch.syncID)

structure World where
  db : Db
  received : List Batch := []
  accounted : List Accounted := []
  purged : List (Source × String) := []
  answered : List (Request × Answer) := []

/-- How a statement fares: the clock it reads, whether it reports success, and whether a
transaction that reports failure was committed nevertheless. -/
structure Fate where
  time : Time := 0
  ok : Bool := true
  committed : Bool := false

/-- Run a batch's transaction. A failed transaction is rolled back, except that the commit
itself may have succeeded before its result was lost. -/
def World.account (w : World) (fate : Fate) (batch : Batch) (rate : Binary64) (tx : Tx Unit) :
    Except TxError Unit × World :=
  let seen := { w with received := batch :: w.received }
  match tx w.db with
  | .error reason => (.error (if fate.ok then reason else .database), seen)
  | .ok ((), db) =>
    let added := if batch.key ∈ w.db.receipts then [] else
      match trafficIncrements rate batch.entries with
      | .ok increments => [⟨batch.source, batch.syncID, rate, increments⟩]
      | .error _ => []
    let done := { seen with db := db, accounted := added ++ w.accounted }
    if fate.ok then (.ok (), done)
    else (.error .database, if fate.committed then done else seen)

/-- Delete receipts, keeping in the history which ones went. -/
def World.purge (w : World) (fate : Fate) (db : Db) : Bool × World :=
  (fate.ok, if fate.ok ∨ fate.committed then
    { w with
      db := db
      purged := (w.db.receipts.filter fun key => key ∉ db.receipts) ++ w.purged }
    else w)

/-! ### Statements -/

inductive Op where
  | now
  | nodeBySecret (secret : String)
  | saveNode (node : Node)
  | nodeTraffic (node : Node) (syncID : String) (traffic : TrafficMap)
  | dataPlaneTraffic (syncID : String) (traffic : TrafficMap)
  | activeUsers
  | cleanupNodeReceipts (now : Time)
  | cleanupDataPlaneReceipts (now : Time)
  | respond (request : Request) (answer : Answer)

@[reducible] def Res : Op → Type
  | .now => Time
  | .nodeBySecret _ => Option Node
  | .saveNode _ => Bool
  | .nodeTraffic _ _ _ | .dataPlaneTraffic _ _ => Except TxError Unit
  | .activeUsers => Option (List User)
  | .cleanupNodeReceipts _ | .cleanupDataPlaneReceipts _ => Bool
  | .respond _ _ => Unit

def exec (fingerprint : String → String) : Prog.Exec World Fate Op Res
  | fate, w, .now => some (fate.time, w)
  | fate, w, .nodeBySecret secret =>
    some (if fate.ok then w.db.nodeBySecret fingerprint secret else none, w)
  | fate, w, .saveNode node =>
    some (fate.ok, if fate.ok ∨ fate.committed then { w with db := w.db.saveNode node } else w)
  | fate, w, .nodeTraffic node syncID traffic =>
    some (w.account fate ⟨.node node.id, syncID, traffic⟩ node.trafficRate
      (nodeTrafficTx fate.time node syncID traffic))
  | fate, w, .dataPlaneTraffic syncID traffic =>
    some (w.account fate ⟨.dataPlane, syncID, traffic⟩ (.ofNat 1)
      (dataPlaneTrafficTx fate.time syncID traffic))
  | fate, w, .activeUsers =>
    some (if fate.ok then some (w.db.users.filter fun u => u.status = 0) else none, w)
  | fate, w, .cleanupNodeReceipts now => some (w.purge fate (w.db.cleanupNodeReceipts now))
  | fate, w, .cleanupDataPlaneReceipts now =>
    some (w.purge fate (w.db.cleanupDataPlaneReceipts now))
  | _, w, .respond request answer =>
    some ((), { w with answered := (request, answer) :: w.answered })

/-! ### Handlers -/

abbrev Handler := Prog Op Res

abbrev ask (op : Op) : Handler (Res op) := Prog.ask op

abbrev activeUsers : Handler (Option (List User)) := ask .activeUsers

abbrev nodeBySecret (secret : String) : Handler (Option Node) := ask (.nodeBySecret secret)

abbrev nodeTraffic (node : Node) (syncID : String) (traffic : TrafficMap) :
    Handler (Except TxError Unit) := ask (.nodeTraffic node syncID traffic)

abbrev dataPlaneTraffic (syncID : String) (traffic : TrafficMap) :
    Handler (Except TxError Unit) := ask (.dataPlaneTraffic syncID traffic)

abbrev respond (request : Request) (answer : Answer) : Handler Unit := ask (.respond request answer)

/-- The users a node may serve at this moment. -/
def validHashes (now : Time) (users : List User) : List String :=
  (users.filter fun u =>
    ¬ (∃ expiry ∈ u.expiryTime, expiry ≠ 0 ∧ expiry < now) ∧ ¬ (u.quota > 0 ∧ u.used ≥ u.quota) ∧
      u.hash ≠ "").map User.hash

def answerUsers (request : Request) (now : Time) : Handler Unit := do
  match ← activeUsers with
  | none => respond request (.error 500 "读取有效用户失败")
  | some users => respond request (.users (validHashes now users))

def heartbeat (node : Node) (now : Time) (clientIP : String) : Node :=
  { node with
    lastHeartbeat := some now
    status := 1
    detectedIP := if clientIP ≠ "" ∧ clientIP ≠ "::1" ∧ clientIP ≠ "127.0.0.1" then clientIP
      else node.detectedIP }

/-- The traffic part of a node's request, once its body was decoded to a non-empty batch. -/
def accountNodeTraffic (request : NodeSyncRequest) (node : Node) (traffic : TrafficMap)
    (now : Time) : Handler Unit := do
  if request.syncID = "" then
    respond (.nodeSync request) (.error 400 "缺少流量同步幂等键")
  else if request.syncID.utf8ByteSize > 64 then
    respond (.nodeSync request) (.error 400 "无效的流量同步幂等键")
  else
    match ← nodeTraffic node request.syncID traffic with
    | .error reason =>
      if isTrafficValueError reason then
        respond (.nodeSync request) (.error 400 "无效的流量数据")
      else respond (.nodeSync request) (.error 500 "流量同步失败")
    | .ok () => answerUsers (.nodeSync request) now

def handleNodeSync (request : NodeSyncRequest) : Handler Unit := do
  if request.secret = "" then
    respond (.nodeSync request) (.error 401 "缺少通信密钥")
  else
    match ← nodeBySecret request.secret with
    | none => respond (.nodeSync request) (.error 401 "无效的通信密钥")
    | some found => do
      let now ← ask .now
      let node := heartbeat found now request.clientIP
      if ← ask (.saveNode node) then
        match request.body.bind with
        | some traffic =>
          if traffic.entries ≠ [] then accountNodeTraffic request node traffic now
          else answerUsers (.nodeSync request) now
        -- a body that cannot be decoded counts as one without traffic
        | none => answerUsers (.nodeSync request) now
      else respond (.nodeSync request) (.error 500 "心跳信息更新失败")

def handleDataPlaneTraffic (request : DataPlaneRequest) : Handler Unit := do
  match request.body.bind with
  | none =>
    respond (.dataPlaneTraffic request) (.error 400 "invalid data-plane traffic batch")
  | some traffic =>
    if request.syncID = "" ∨ traffic.entries = [] then
      respond (.dataPlaneTraffic request) (.error 400 "invalid data-plane traffic batch")
    else if request.syncID.utf8ByteSize > 64 then
      respond (.dataPlaneTraffic request) (.error 400 "invalid data-plane sync id")
    else
      match ← dataPlaneTraffic request.syncID traffic with
      | .error reason =>
        if isTrafficValueError reason then
          respond (.dataPlaneTraffic request) (.error 400 "invalid data-plane traffic values")
        else
          respond (.dataPlaneTraffic request) (.error 500 "data-plane traffic persistence failed")
      | .ok () => respond (.dataPlaneTraffic request) .ok

/-- One tick of the cleanup worker; a failing first deletion does not stop the second. -/
def receiptCleanupTick : Handler Unit := do
  let now ← ask .now
  let _ ← ask (.cleanupNodeReceipts now)
  let _ ← ask (.cleanupDataPlaneReceipts now)

/-- What a thread of the master can be asked to do. -/
inductive Call where
  | request (request : Request)
  | receiptCleanup

def body : Call → Handler Unit
  | .request (.nodeSync request) => handleNodeSync request
  | .request (.dataPlaneTraffic request) => handleDataPlaneTraffic request
  | .receiptCleanup => receiptCleanupTick

/-- The master: any number of threads, each serving one call after another. A crash ends
every call and leaves the database. -/
def machine (fingerprint : String → String) :
    Machine Nat World Fate (fun _ => Call) (fun _ => Unit) Op Res where
  exec := exec fingerprint
  body := fun _ call _ => some (body call)
  reboot := some
  memory := fun _ _ => ()

end TrojanGo.Master
