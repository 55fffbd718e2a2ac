import Mathlib.Data.List.Basic
import TrojanGo.Accounts.Authenticators
import TrojanGo.Lib.Sequential
import TrojanGo.Traffic

/-!
# The updaters of the database authenticators

Between any two operations of an updater connections count traffic and an administrator changes
the table; both are part of how the next operation fares. User objects live in a heap: an object
that was removed from the map stays there for the connections that still hold it.
-/
namespace TrojanGo.Statistic

open Lib Master Accounts

/-! ### The state -/

/-- A user object. Received bytes are the user's upload. -/
structure Meter where
  hash : String
  sent : Nat := 0
  recv : Nat := 0
  deriving DecidableEq

def amount (sent recv : Nat) : Dir → Nat
  | .up => recv
  | .down => sent

/-- What the updaters do with a row of a table of users. -/
structure Schema (ρ : Type) where
  id : ρ → Nat
  hash : ρ → String
  /-- the columns for upload and download -/
  traffic : ρ → Dir → Int
  /-- what the UPDATE statement does with a row it finds -/
  credit : (sent recv : Nat) → ρ → ρ
  /-- the columns have room for the sums -/
  fits : (sent recv : Nat) → ρ → Bool
  id_credit : ∀ sent recv row, id (credit sent recv row) = id row
  hash_credit : ∀ sent recv row, hash (credit sent recv row) = hash row
  traffic_credit : ∀ sent recv row d, fits sent recv row = true →
    traffic (credit sent recv row) d = traffic row d + amount sent recv d

structure World (ρ : Type) where
  meters : List Meter := []
  users : String → Option Nat := fun _ => none
  rows : List ρ := []
  /-- the identifiers of all rows so far, which are not used again -/
  ids : List Nat := []
  /-- all traffic that was added, which no operation reads -/
  counted : String → Dir → Nat := fun _ _ => 0

/-- What the rest of the system does. -/
inductive Event (ρ : Type) where
  /-- a connection counts traffic on the user object it holds -/
  | traffic (i sent recv : Nat)
  | insert (row : ρ)
  | delete (id : Nat)
  /-- an administrator changes columns of the row with this identifier -/
  | edit (row : ρ)

/-- The table is left alone. -/
def Event.isTraffic {ρ : Type} : Event ρ → Bool
  | .traffic _ _ _ => true
  | _ => false

section Exec

variable {ρ : Type} (schema : Schema ρ)

def World.count (s : World ρ) (i sent recv : Nat) : World ρ :=
  match s.meters[i]? with
  | none => s
  | some m =>
    { s with
      -- the counters are 64-bit words
      meters := s.meters.set i
        { m with sent := (m.sent + sent) % word, recv := (m.recv + recv) % word }
      counted := fun h d => s.counted h d + if h = m.hash then amount sent recv d else 0 }

def Event.apply (s : World ρ) : Event ρ → World ρ
  | .traffic i sent recv => s.count i sent recv
  | .insert row =>
    if schema.id row ∈ s.ids then s
    else { s with rows := s.rows ++ [row], ids := schema.id row :: s.ids }
  | .delete id => { s with rows := s.rows.filter fun row => schema.id row ≠ id }
  | .edit row =>
    { s with rows := s.rows.map fun old => if schema.id old = schema.id row then row else old }

/-! ### Operations -/

inductive Op where
  | listUsers
  /-- `ResetTraffic` -/
  | take (i : Nat)
  | update (hash : String) (sent recv : Nat)
  | rowsAffected (n : Nat)
  | select
  | addUser (hash : String)
  | mapLoad (hash : String)
  /-- `Close` of a user object -/
  | close (i : Nat)
  | mapDelete (hash : String)
  deriving DecidableEq

@[reducible] def Res (ρ : Type) : Op → Type
  | .listUsers => List (Nat × String)
  | .take _ => Nat × Nat
  | .update _ _ _ => Option Nat
  | .rowsAffected _ => Nat × Bool
  | .select => Option (List ρ)
  | .addUser _ => Unit
  | .mapLoad _ => Option Nat
  | .close _ => Unit
  | .mapDelete _ => Unit

/-- What happens before an operation, whether it succeeds, whether an update that reports an
error was made nevertheless, the order of a range over the map, and where the rows of a query
end early. -/
structure Fate (ρ : Type) where
  before : List (Event ρ) := []
  ok : Bool := true
  after : Bool := false
  order : List Nat := []
  limit : Option Nat := none

def World.settle (s : World ρ) (events : List (Event ρ)) : World ρ :=
  events.foldl (Event.apply schema) s

/-- The user objects in the order of a range over the map, if it is one: each object of the map
once. -/
def World.list (s : World ρ) (order : List Nat) : Option (List (Nat × String)) :=
  if order.Nodup ∧ ∀ i ∈ List.range s.meters.length,
      (i ∈ order ↔ ∃ m ∈ s.meters[i]?, s.users m.hash = some i) then
    some (order.filterMap fun i => (s.meters[i]?).map fun m => (i, m.hash))
  else none

def World.reset (s : World ρ) (i : Nat) : World ρ :=
  match s.meters[i]? with
  | none => s
  | some m => { s with meters := s.meters.set i { m with sent := 0, recv := 0 } }

def World.credit (s : World ρ) (hash : String) (sent recv : Nat) : World ρ :=
  { s with rows := s.rows.map fun row =>
      if schema.hash row = hash then schema.credit sent recv row else row }

/-- One operation, once everything before it has happened. -/
def perform (fate : Fate ρ) (s : World ρ) : (op : Op) → Option (Res ρ op × World ρ)
  | .listUsers => (s.list fate.order).map fun users => (users, s)
  | .take i => (s.meters[i]?).map fun m => ((m.sent, m.recv), s.reset i)
  | .update hash sent recv =>
    if fate.ok then
      some (some (s.rows.filter fun row => schema.hash row = hash).length,
        s.credit schema hash sent recv)
    else some (none, if fate.after then s.credit schema hash sent recv else s)
  | .rowsAffected n => some (if fate.ok then (n, false) else (0, true), s)
  | .select =>
    if fate.ok then
      some (some (match fate.limit with
        | none => s.rows
        | some n => s.rows.take n), s)
    else some (none, s)
  | .addUser hash =>
    match s.users hash with
    | some _ => some ((), s)
    | none => some ((), { s with
      meters := s.meters ++ [{ hash := hash }]
      users := fun h => if h = hash then some s.meters.length else s.users h })
  | .mapLoad hash => some (s.users hash, s)
  | .close i => some ((), s.reset i)
  | .mapDelete hash => some ((), { s with users := fun h => if h = hash then none else s.users h })

def exec : Prog.Exec (World ρ) (Fate ρ) Op (Res ρ) := fun fate s op =>
  perform schema fate (s.settle schema fate.before) op

end Exec

/-! ### Programs -/

variable {ρ : Type}

abbrev Updater (ρ : Type) := Prog Op (Res ρ)

abbrev ask (op : Op) : Updater ρ (Res ρ op) := Prog.ask op

/-- No other goroutine runs; what others do is part of the fates. -/
abbrev quiet : Prog.Contract (World ρ) Op := .alone (fun _ _ => True) fun _ => True

def delUser (hash : String) : Updater ρ Unit := do
  match ← ask (.mapLoad hash) with
  | none => return ()
  | some i => do
    ask (.close i)
    ask (.mapDelete hash)

/-! #### MySQL -/

namespace MySQL

structure Row where
  id : Nat
  password : String
  quota : Int := 0
  download : Int := 0
  upload : Int := 0
  deriving DecidableEq

def schema : Schema Row where
  id := Row.id
  hash := Row.password
  traffic row
    | .up => row.upload
    | .down => row.download
  credit sent recv row := { row with upload := row.upload + recv, download := row.download + sent }
  -- a sum that is out of range is an error of the statement
  fits _ _ _ := true
  id_credit _ _ _ := rfl
  hash_credit _ _ _ := rfl
  traffic_credit sent recv row d _ := by cases d <;> rfl

/-- The first loop of a cycle. -/
def writeTraffic : List (Nat × String) → Updater Row Unit
  | [] => return ()
  | (i, hash) :: rest => do
    let (sent, recv) ← ask (.take i)
    match ← ask (.update hash sent recv) with
    | none => writeTraffic rest
    | some n => do
      let (affected, failed) ← ask (.rowsAffected n)
      -- the number of rows is looked at only if it could not be told
      if failed ∧ affected = 0 then do
        delUser hash
        writeTraffic rest
      else writeTraffic rest

/-- The columns are scanned into signed 64-bit integers. -/
def Row.scans (row : Row) : Bool := row.download < 2 ^ 63 ∧ row.upload < 2 ^ 63

/-- The sum is one of signed 64-bit integers. -/
def Row.admitted (row : Row) : Bool :=
  (row.download + row.upload).bmod (2 ^ 64) < row.quota ∨ row.quota < 0

/-- The second loop of a cycle. It ends at the first row that cannot be scanned. -/
def refresh : List Row → Updater Row Unit
  | [] => return ()
  | row :: rest =>
    if row.scans then do
      if row.admitted then ask (.addUser row.password) else delUser row.password
      refresh rest
    else return ()

def cycle : Updater Row Unit := do
  let users ← ask .listUsers
  writeTraffic users
  match ← ask .select with
  | none => return ()
  | some rows => refresh rows

end MySQL

/-! #### SQLite -/

namespace SQLite

/-- The nearest floating-point number, of 53 bits. -/
def real (n : Int) : Int :=
  let unit : Int := 2 ^ (n.natAbs.log2 - 52)
  let down := n / unit
  let rest := 2 * (n % unit)
  if unit < rest ∨ rest = unit ∧ down % 2 = 1 then (down + 1) * unit else down * unit

def isInteger (n : Int) : Bool := -2 ^ 63 ≤ n ∧ n < 2 ^ 63

/-- A sum that is no 64-bit integer is one of floating-point numbers. -/
def sum (a b : Int) : Int := if isInteger (a + b) then a + b else real (real a + real b)

def schema : Schema User where
  id := User.id
  hash := User.hash
  traffic row
    | .up => row.upload
    | .down => row.download
  credit sent recv row :=
    { row with
      used := sum row.used ((sent + recv) % word : Nat)
      upload := sum row.upload recv
      download := sum row.download sent }
  fits sent recv row := isInteger (row.upload + recv) && isInteger (row.download + sent)
  id_credit _ _ _ := rfl
  hash_credit _ _ _ := rfl
  traffic_credit sent recv row d fits := by
    rw [Bool.and_eq_true] at fits
    cases d with
    | up => exact if_pos fits.1
    | down => exact if_pos fits.2

def writeTraffic : List (Nat × String) → Updater User Unit
  | [] => return ()
  | (i, hash) :: rest => do
    let (sent, recv) ← ask (.take i)
    if sent = 0 ∧ recv = 0 then writeTraffic rest
    else do
      -- an error is only logged
      let _ ← ask (.update hash sent recv)
      writeTraffic rest

def addUsers (current : List String) : List User → Updater User Unit
  | [] => return ()
  | row :: rest => do
    if row.hash ∈ current then addUsers current rest
    else do
      ask (.addUser row.hash)
      addUsers current rest

def removeUsers : List String → Updater User Unit
  | [] => return ()
  | hash :: rest => do
    delUser hash
    removeUsers rest

/-- The time of a cycle is read once, for the query. -/
def cycle (clock : Clock) : Updater User Unit := do
  let users ← ask .listUsers
  writeTraffic users
  match ← ask .select with
  | none => return ()
  | some rows => do
    let rows := rows.filter (selected clock)
    let current := (← ask .listUsers).map Prod.snd
    addUsers current rows
    removeUsers (current.filter fun hash => hash ∉ rows.map User.hash)

end SQLite

/-! ### Histories -/

/-- The two authenticators with a database. -/
inductive Backend where
  | mysql
  | sqlite

namespace Backend

@[reducible] def Row : Backend → Type
  | .mysql => MySQL.Row
  | .sqlite => User

def schema : (b : Backend) → Schema b.Row
  | .mysql => MySQL.schema
  | .sqlite => SQLite.schema

/-- One cycle of the updater; the time is that of the query. -/
def cycle : (b : Backend) → Clock → Updater b.Row Unit
  | .mysql, _ => MySQL.cycle
  | .sqlite, clock => SQLite.cycle clock

/-- Cycles one after another, each with what happens to it. -/
def cycles (b : Backend) (history : List (Clock × List (Fate b.Row))) :
    List (Updater b.Row Unit × List (Fate b.Row)) :=
  history.map fun (clock, fates) => (b.cycle clock, fates)

end Backend

end TrojanGo.Statistic
