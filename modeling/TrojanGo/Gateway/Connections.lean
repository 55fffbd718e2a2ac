import Mathlib.Data.List.Basic
import TrojanGo.Lib.Threads

/-!
# The gateway and its service router

Every goroutine is a thread. The semaphore is a channel of empty values; here its elements are
the connections that they were put in for. The router is the listener of an HTTP server of its
own, which is handed connections through a channel.
-/
namespace TrojanGo.Gateway

open Lib

/-! ### Paths -/

abbrev Path := List Char

structure ServiceRouter where
  adminPrefix : Path
  subPath : Path
  adminDisabled : Bool := false

/-- `strings.TrimSuffix` of a slash. -/
def trimSlash (path : Path) : Path := if path.getLast? = some '/' then path.dropLast else path

/-- `ServiceRouter.Matches`. -/
def ServiceRouter.matchesPath (r : ServiceRouter) (path : Path) : Bool :=
  if ['/', 'c', 'o', 'n', 't', 'r', 'o', 'l', '/', 'v', '1', '/'].isPrefixOf path then true
  else if r.adminDisabled then false
  else
    path = r.subPath || path = ['/', 's', 'u', 'b'] || path = trimSlash r.adminPrefix ||
      r.adminPrefix.isPrefixOf path

/-! ### Connections -/

/-- Who has the connection. -/
inductive Phase where
  | fresh
  | gateway
  /-- in the channel of the router -/
  | queued
  /-- with the HTTP server -/
  | served
  | closed
  deriving DecidableEq

/-- `sync.Once`. -/
inductive Once where
  | untouched
  | running
  | finished
  deriving DecidableEq

structure World where
  maxConn : Nat
  phase : Nat → Phase := fun _ => .fresh
  /-- the history of `Accept` -/
  accepted : List Nat := []
  /-- the connection that `Serve` has accepted and not looked for a place for yet -/
  hand : Option Nat := none
  semaphore : List Nat := []
  /-- the connections whose worker has been started, and the workers that have begun -/
  spawned : Nat → Bool := fun _ => false
  begun : Nat → Bool := fun _ => false
  workers : Nat := 0
  activeConns : List Nat := []
  /-- `done` and the listener are closed -/
  closing : Bool := false
  connChan : List Nat := []
  routerConns : List Nat := []
  /-- the connections that the HTTP server has started a goroutine for -/
  serving : Nat → Bool := fun _ => false
  routerDone : Bool := false
  routerClose : Once := .untouched

def connChanSize : Nat := 64

/-- The accepted connections that are not closed yet. -/
def World.openConns (w : World) : List Nat := w.accepted.filter fun i => w.phase i ≠ .closed

def World.arrive (w : World) (i : Nat) : World :=
  { w with
    phase := Function.update w.phase i .gateway
    accepted := i :: w.accepted
    hand := some i }

def World.closeConn (w : World) (i : Nat) : World :=
  { w with phase := Function.update w.phase i .closed }

/-- The connection goes from one owner to the next, unless it has been closed meanwhile. -/
def World.handOver (w : World) (i : Nat) (owner next : Phase) : World :=
  if w.phase i = owner then { w with phase := Function.update w.phase i next } else w

/-! ### Operations -/

inductive Op where
  /- the listener and the semaphore -/
  | accept
  | acquire (i : Nat)
  | release (i : Nat)
  /- the books of the gateway -/
  | addWorker
  | addConnection (i : Nat)
  | removeConnection (i : Nat)
  | workerDone
  /- a worker -/
  | spawn (i : Nat)
  | begin (i : Nat)
  | handshake (i : Nat)
  | readRequest (i : Nat)
  | writeNotFound (i : Nat)
  | dial (i : Nat)
  | writeProxyHeader (i : Nat)
  | relay (i : Nat)
  | close (i : Nat)
  /- the channel of the router and its HTTP server -/
  | send (i : Nat)
  | receive
  | stateNew (i : Nat)
  | serveHTTP (i : Nat)
  | stateClosed (i : Nat)
  /- closing the gateway -/
  | shut
  | drained
  | listActive
  | wait
  /- closing the router -/
  | enterOnce
  | shutdown
  | listRouter
  | receiveNow
  | leaveOnce
  deriving DecidableEq

@[reducible] def Res : Op → Type
  | .accept | .receive | .receiveNow => Option Nat
  | .readRequest _ => Option Path
  | .listActive | .listRouter => List Nat
  | .acquire _ | .handshake _ | .dial _ | .writeProxyHeader _ | .send _ | .serveHTTP _
  | .drained | .enterOnce | .shutdown => Bool
  | _ => Unit

/-- How an operation fares: which connection arrives, whether it succeeds, which path a request
names, and which connections are idle when the HTTP server is shut down. -/
structure Fate where
  conn : Nat := 0
  ok : Bool := true
  path : Option Path := none
  idle : List Nat := []

def exec (fate : Fate) (w : World) : (op : Op) → Option (Res op × World)
  | .accept =>
    if fate.ok then
      if w.phase fate.conn = .fresh ∧ ¬ w.closing then
        some (some fate.conn, w.arrive fate.conn)
      else none
    else some (none, w)
  | .acquire i =>
    if w.semaphore.length < w.maxConn then
      some (true, { w with semaphore := i :: w.semaphore, hand := none })
    else some (false, { w with hand := none })
  | .release i =>
    if w.semaphore = [] then none
    else some ((), { w with semaphore := w.semaphore.erase i })
  | .addWorker => some ((), { w with workers := w.workers + 1 })
  | .addConnection i => some ((), { w with activeConns := w.activeConns.insert i })
  | .removeConnection i => some ((), { w with activeConns := w.activeConns.erase i })
  | .workerDone => some ((), { w with workers := w.workers - 1 })
  | .spawn i => some ((), { w with spawned := Function.update w.spawned i true })
  | .begin i =>
    if w.spawned i ∧ ¬ w.begun i then
      some ((), { w with begun := Function.update w.begun i true })
    else none
  | .handshake i => some (fate.ok && w.phase i ≠ .closed, w)
  | .readRequest _ => some (fate.path, w)
  | .dial _ | .writeProxyHeader _ => some (fate.ok, w)
  | .writeNotFound _ | .relay _ => some ((), w)
  | .close i => some ((), w.closeConn i)
  | .send i =>
    if fate.ok then
      if w.connChan.length < connChanSize then
        some (true, { w.handOver i .gateway .queued with connChan := w.connChan ++ [i] })
      else none
    else if w.routerDone then some (false, w) else none
  | .receive =>
    if fate.ok then
      match w.connChan with
      | [] => none
      | i :: rest => some (some i, { w.handOver i .queued .served with connChan := rest })
    else if w.routerDone then some (none, w) else none
  | .stateNew i =>
    some ((), { w with
      routerConns := w.routerConns.insert i
      serving := Function.update w.serving i true })
  -- true if the connection has been hijacked, as it is to switch protocols
  | .serveHTTP i => if w.serving i then some (fate.ok, w) else none
  | .stateClosed i => some ((), { w with routerConns := w.routerConns.erase i })
  | .shut => some ((), { w with closing := true })
  | .drained =>
    if fate.ok then if w.workers = 0 then some (true, w) else none else some (false, w)
  | .listActive => some (w.activeConns, w)
  | .wait => if w.workers = 0 then some ((), w) else none
  | .enterOnce =>
    match w.routerClose with
    | .untouched => some (true, { w with routerClose := .running, routerDone := true })
    | .running => none
    | .finished => some (false, w)
  | .shutdown =>
    some (fate.ok, { w with
      phase := fun i => if i ∈ fate.idle ∧ w.phase i = .served then .closed else w.phase i })
  | .listRouter => some (w.routerConns, w)
  | .receiveNow =>
    match w.connChan with
    | [] => some (none, w)
    | i :: rest => some (some i, { w with connChan := rest })
  | .leaveOnce => some ((), { w with routerClose := .finished })

/-! ### Threads -/

inductive Role where
  /-- `Gateway.Serve` -/
  | serve
  | worker (conn : Nat)
  /-- the accept loop of the HTTP server -/
  | httpServer
  | http (conn : Nat)
  /-- a call of `Gateway.Close` -/
  | closer (id : Nat)
  deriving DecidableEq

inductive Mem where
  | new
  /-- the router drains its channel -/
  | draining
  | ended
  deriving DecidableEq

abbrev Routine := Prog Op Res

abbrev ask (op : Op) : Routine (Res op) := Prog.ask op

/-- A round of `Gateway.Serve`. -/
def serve : Routine Mem := do
  match ← ask .accept with
  | none => return .ended
  | some i =>
    if ← ask (.acquire i) then
      ask .addWorker
      ask (.addConnection i)
      ask (.spawn i)
      return .new
    else
      ask (.close i)
      return .new

def serveConn (i : Nat) : Routine Unit := do
  if ← ask (.send i) then return ()
  else ask (.close i)

def writeGatewayNotFound (i : Nat) : Routine Unit := do
  ask (.writeNotFound i)
  ask (.close i)

/-- `forwardTrojan`; the connection to the data plane is not tracked. -/
def forwardTrojan (i : Nat) : Routine Unit := do
  if ← ask (.dial i) then
    if ← ask (.writeProxyHeader i) then
      ask (.relay i)
      ask (.close i)
    else ask (.close i)
  else ask (.close i)

variable (router : ServiceRouter)

def handleConn (i : Nat) : Routine Unit := do
  if ← ask (.handshake i) then
    match ← ask (.readRequest i) with
    | some path => if router.matchesPath path then serveConn i else writeGatewayNotFound i
    | none => forwardTrojan i
  else ask (.close i)

/-- The goroutine of an accepted connection, with its deferred calls. -/
def worker (i : Nat) : Routine Mem := do
  ask (.begin i)
  handleConn router i
  ask (.release i)
  ask (.removeConnection i)
  ask .workerDone
  return .ended

/-- A round of the HTTP server on the router. -/
def acceptHTTP : Routine Mem := do
  match ← ask .receive with
  | none => return .ended
  | some i =>
    ask (.stateNew i)
    return .new

/-- The goroutine of an HTTP connection, from its first request to its end. -/
def http (i : Nat) : Routine Mem := do
  if ← ask (.serveHTTP i) then
    ask (.stateClosed i)
    ask (.close i)
    return .ended
  else
    ask (.close i)
    ask (.stateClosed i)
    return .ended

def closeAll : List Nat → Routine Unit
  | [] => return ()
  | i :: conns => do
    ask (.close i)
    closeAll conns

/-- `ServiceRouter.Close`, up to the draining of its channel. -/
def closeRouter : Routine Mem := do
  if ← ask .enterOnce then
    if ← ask .shutdown then
      ask .leaveOnce
      return .ended
    else
      closeAll (← ask .listRouter)
      return .draining
  else return .ended

def drainRouter : Routine Mem := do
  match ← ask .receiveNow with
  | none =>
    ask .leaveOnce
    return .ended
  | some i =>
    ask (.close i)
    return .draining

/-- `Gateway.Close`. -/
def closeGateway : Routine Mem := do
  ask .shut
  if ← ask .drained then closeRouter
  else
    closeAll (← ask .listActive)
    ask .wait
    closeRouter

def body : Role → Mem → Option (Routine Mem)
  | .serve, .new => some serve
  | .worker i, .new => some (worker router i)
  | .httpServer, .new => some acceptHTTP
  | .http i, .new => some (http i)
  | .closer _, .new => some closeGateway
  | .closer _, .draining => some drainRouter
  | _, _ => none

def machine :
    Machine Role World Fate (fun _ => Unit) (fun _ => Mem) Op Res where
  exec := exec
  body := fun r _ mem => body router r mem
  reboot := fun _ => none
  memory := fun _ _ => .new

end TrojanGo.Gateway
