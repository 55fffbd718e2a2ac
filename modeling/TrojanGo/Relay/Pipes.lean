import TrojanGo.Lib.Threads
import TrojanGo.Tunnel.Address

/-!
# Relaying two connections

One goroutine copies each direction, and the handler closes both connections after the first of
the two has finished. A round of a copy loop is one call. The peers at both ends are threads as
well.
-/
namespace TrojanGo.Pipes

open Lib

/-! ### The state -/

/-- The client's connection and the one that is dialled. -/
inductive Side where
  | inbound
  | outbound
  deriving DecidableEq

def Side.other : Side → Side
  | .inbound => .outbound
  | .outbound => .inbound

@[simp] theorem Side.other_other (side : Side) : side.other.other = side := by cases side <;> rfl

@[simp] theorem Side.other_ne (side : Side) : side.other ≠ side := by cases side <;> simp [other]

@[simp] theorem Side.ne_other (side : Side) : side ≠ side.other := by cases side <;> simp [other]

theorem Side.eq_or (side side' : Side) : side' = side ∨ side' = side.other := by
  cases side <;> cases side' <;> simp [other]

structure Conn where
  /-- everything the peer has sent -/
  sent : Bytes := []
  /-- what was sent and not read yet -/
  inbox : Bytes := []
  /-- the peer has finished sending -/
  ended : Bool := false
  /-- everything that was written to the peer -/
  delivered : Bytes := []
  /-- after `CloseWrite` -/
  shut : Bool := false
  /-- after `Close` -/
  closed : Bool := false
  deriving DecidableEq

structure State where
  conns : Side → Conn := fun _ => {}
  /-- whether the copier of the bytes from this side has told the channel that it is done -/
  posted : Side → Bool := fun _ => false
  /-- how many messages were taken from the channel -/
  received : Nat := 0
  /-- the wait group of the proxy -/
  working : Nat := 2

def State.update (s : State) (side : Side) (f : Conn → Conn) : State :=
  { s with conns := Function.update s.conns side (f (s.conns side)) }

/-- How many messages the channel holds. -/
def State.queued (s : State) : Nat :=
  (s.posted .inbound).toNat + (s.posted .outbound).toNat - s.received

/-! ### Operations -/

/-- What a read reports beside its bytes. -/
inductive Found where
  | more
  | eof
  | error
  deriving DecidableEq

inductive Op where
  | read (side : Side)
  | write (side : Side) (bytes : Bytes)
  | closeWrite (side : Side)
  | post (side : Side)
  | wgDone
  /-- wait for the first message, or for the end of the context -/
  | await (cancellable : Bool)
  | close (side : Side)
  | wgWait
  /-- the peer sends bytes -/
  | send (side : Side) (bytes : Bytes)
  /-- the peer finishes sending -/
  | finish (side : Side)
  deriving DecidableEq

@[reducible] def Res : Op → Type
  | .read _ => Bytes × Found
  | .write _ _ => Bool
  | _ => Unit

/-- How many bytes a read returns, whether it reports the end together with the last of them, and
whether the context has ended. -/
structure Fate where
  count : Nat := 1
  atOnce : Bool := false
  cancelled : Bool := false

def exec (fate : Fate) (s : State) : (op : Op) → Option (Res op × State)
  | .read side =>
    let conn := s.conns side
    if conn.closed then some (([], .error), s)
    else if conn.inbox = [] then if conn.ended then some (([], .eof), s) else none
    else if fate.count = 0 then none
    else
      let rest := conn.inbox.drop fate.count
      some ((conn.inbox.take fate.count,
          if fate.atOnce ∧ conn.ended ∧ rest = [] then .eof else .more),
        s.update side fun conn => { conn with inbox := rest })
  | .write side bytes =>
    let conn := s.conns side
    if conn.closed ∨ conn.shut then some (false, s)
    else some (true, s.update side fun conn => { conn with delivered := conn.delivered ++ bytes })
  | .closeWrite side => some ((), s.update side fun conn => { conn with shut := true })
  | .post side => some ((), { s with posted := Function.update s.posted side true })
  | .wgDone => some ((), { s with working := s.working - 1 })
  | .await cancellable =>
    if cancellable ∧ fate.cancelled then some ((), s)
    else if 0 < s.queued then some ((), { s with received := s.received + 1 })
    else none
  | .close side => some ((), s.update side fun conn => { conn with closed := true })
  | .wgWait => if s.working = 0 then some ((), s) else none
  | .send side bytes =>
    if (s.conns side).ended then none
    else some ((), s.update side fun conn =>
      { conn with sent := conn.sent ++ bytes, inbox := conn.inbox ++ bytes })
  | .finish side => some ((), s.update side fun conn => { conn with ended := true })

/-! ### Programs -/

/-- The three relays. The gateway looks which of the connections are TCP connections. -/
inductive Relay where
  | gateway (tcp : Side → Bool)
  | proxy
  | redirector

abbrev Pipe := Prog Op Res

abbrev ask (op : Op) : Pipe (Res op) := Prog.ask op

variable (relay : Relay)

/-- The end of `copyConn`. -/
def Relay.leave (side : Side) : Pipe Bool :=
  match relay with
  | .gateway tcp =>
    if tcp side.other then do
      ask (.closeWrite side.other)
      ask (.post side)
      return true
    else do
      ask (.post side)
      return true
  | .proxy => do
    ask (.post side)
    ask .wgDone
    return true
  | .redirector => do
    ask (.post side)
    return true

/-- What `io.Copy` does after a write. -/
def Relay.copied (side : Side) (found : Found) (written : Bool) : Pipe Bool :=
  if written ∧ found = .more then return false else relay.leave side

/-- A round of `io.Copy`, in the goroutine that copies what comes from this side. -/
def Relay.copyConn (side : Side) : Pipe Bool := do
  let (bytes, found) ← ask (.read side)
  if bytes = [] then relay.copied side found true
  else do
    let written ← ask (.write side.other bytes)
    relay.copied side found written

/-- The handler, from where the copiers have been started. Deferred calls run last to first. -/
def Relay.handle : Relay → Pipe Bool
  | .gateway _ => do
    ask (.await false)
    ask (.close .outbound)
    ask (.close .inbound)
    return true
  | .proxy => do
    ask (.await true)
    ask (.close .inbound)
    ask (.close .outbound)
    ask .wgWait
    ask (.close .outbound)
    ask (.close .inbound)
    return true
  | .redirector => do
    ask (.await true)
    ask (.close .outbound)
    ask (.close .inbound)
    return true

/-! ### The threads -/

inductive Party where
  | copier (side : Side)
  | handler
  | peer (side : Side)
  deriving DecidableEq

inductive Sending where
  | bytes (bytes : Bytes)
  | finish

@[reducible] def Call : Party → Type
  | .copier _ | .handler => Unit
  | .peer _ => Sending

/-- The memory of a thread is whether it has returned. -/
def body : (party : Party) → Call party → Bool → Option (Pipe Bool)
  | _, _, true => none
  | .copier side, _, false => some (relay.copyConn side)
  | .handler, _, false => some relay.handle
  | .peer side, .bytes bytes, false => some do
    ask (.send side bytes)
    return false
  | .peer side, .finish, false => some do
    ask (.finish side)
    return true

def machine : Machine Party State Fate Call (fun _ => Bool) Op Res where
  exec := exec
  body := body relay
  reboot _ := none
  memory _ _ := false

abbrev Config := Machine.Config State Op Res fun _ : Party => Bool

def start : Config := (machine relay).boot {}

end TrojanGo.Pipes
