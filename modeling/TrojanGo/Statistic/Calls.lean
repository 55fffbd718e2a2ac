import Mathlib.Data.List.Perm.Basic
import TrojanGo.Lib.Events

/-!
# Concurrent calls for one user

`AddUser` and `DelUser` each take several steps on the map of the memory authenticator. Those of
all goroutines for one hash interleave.
-/
namespace TrojanGo.Statistic.Calls

open Lib.Events

/-- What a call for the hash finds or does; a user object is the number of the call that made it. -/
inductive Outcome where
  | added (user : Nat)
  | exists_
  | deleted
  | notFound
  /-- `AuthUser`, with the object that the connection holds from then on -/
  | authenticated (user : Option Nat)
  /-- what `ListUsers` returns for the hash -/
  | listed (user : Option Nat)
  deriving DecidableEq

def Outcome.isAdded : Outcome → Bool
  | .added _ => true
  | _ => false

structure State where
  /-- the object in the map -/
  user : Option Nat := none
  made : Nat := 0
  /-- the objects of the `AddUser` calls that have found no entry and have not stored one -/
  adding : List Nat := []
  /-- the objects that `DelUser` calls have loaded, before they close them and after -/
  closing : List Nat := []
  deleting : List Nat := []
  outcomes : List Outcome := []

inductive Event where
  | addUser
  | store (user : Nat)
  | delUser
  | close (user : Nat)
  | delete (user : Nat)
  | authUser
  | listUsers

def State.log (s : State) (outcome : Outcome) : State :=
  { s with outcomes := s.outcomes ++ [outcome] }

/-- An outcome is logged with the last step of its call on the map. -/
def step (s : State) : Event → Option State
  | .addUser =>
    some (match s.user with
      | some _ => s.log .exists_
      | none => { s with made := s.made + 1, adding := s.made :: s.adding })
  | .store user =>
    if user ∈ s.adding then
      some { s.log (.added user) with user := some user, adding := s.adding.erase user }
    else none
  | .delUser =>
    some (match s.user with
      | none => s.log .notFound
      | some user => { s with closing := user :: s.closing })
  | .close user =>
    if user ∈ s.closing then
      some { s with closing := s.closing.erase user, deleting := user :: s.deleting }
    else none
  | .delete user =>
    if user ∈ s.deleting then
      some { s.log .deleted with user := none, deleting := s.deleting.erase user }
    else none
  | .authUser => some (s.log (.authenticated s.user))
  | .listUsers => some (s.log (.listed s.user))

/-! ### Calls one after another -/

/-- What the map holds after a call with the given outcome that nothing interrupts. -/
def after (user : Option Nat) : Outcome → Option (Option Nat)
  | .added user' => if user = none then some (some user') else none
  | .exists_ => if user = none then none else some user
  | .deleted => if user = none then none else some none
  | .notFound => if user = none then some none else none
  | .authenticated user' | .listed user' => if user = user' then some user else none

/-- The outcomes so far are those of some order of the calls, one after another. -/
def State.Sequential (s : State) : Prop :=
  ∃ order, order.Perm s.outcomes ∧ run after none order = some s.user

/-- Between two successful additions there is a successful deletion, and what a connection has
authenticated for is in the map, and is listed, until the next one. -/
structure Linear (s : State) : Prop where
  sequential : s.Sequential
  added : ∀ before between rest user user',
    s.outcomes = before ++ .added user :: between ++ .added user' :: rest → .deleted ∈ between
  held : ∀ before user rest, s.outcomes = before ++ .authenticated (some user) :: rest →
    .deleted ∉ rest → s.user = some user ∧ ∀ user', .listed user' ∈ rest → user' = some user

/-- No successful `AddUser` starts beside another one, and no `DelUser` beside another one. -/
def State.alone (s : State) : Event → Bool
  | .addUser => s.adding = []
  | .delUser => s.closing = [] ∧ s.deleting = []
  | _ => true

def stepAlone (s : State) (event : Event) : Option State :=
  if s.alone event then step s event else none

/-! ### Sequences of outcomes -/

variable {user user' : Option Nat} {outcomes : List Outcome}

/-- An entry stays until it is deleted. -/
theorem run_after_some {object : Nat} (ran : run after (some object) outcomes = some user)
    (kept : .deleted ∉ outcomes) :
    user = some object ∧ (∀ object', .added object' ∉ outcomes) ∧
      ∀ user', .listed user' ∈ outcomes → user' = some object := by
  induction outcomes with
  | nil => cases ran; simp
  | cons outcome outcomes ih =>
    obtain ⟨mid, first, rest⟩ := Option.bind_eq_some_iff.mp (run_cons outcome outcomes ▸ ran)
    have same : mid = some object := by
      cases outcome <;> grind [after]
    subst same
    grind [after]

/-- Additions and deletions take turns. -/
theorem count_added (ran : run after user outcomes = some user') :
    user.toList.length + outcomes.countP Outcome.isAdded =
      outcomes.count .deleted + user'.toList.length := by
  induction outcomes generalizing user with
  | nil => cases ran; simp
  | cons outcome outcomes ih =>
    obtain ⟨mid, first, rest⟩ := Option.bind_eq_some_iff.mp (run_cons outcome outcomes ▸ ran)
    have := ih rest
    cases user <;> cases outcome <;> grind [after, Outcome.isAdded]

theorem run_after_split {first second : List Outcome} {outcome : Outcome}
    (ran : run after user (first ++ outcome :: second) = some user') :
    ∃ mid mid', run after user first = some mid ∧ after mid outcome = some mid' ∧
      run after mid' second = some user' := by
  rw [run_append] at ran
  obtain ⟨mid, before, rest⟩ := Option.bind_eq_some_iff.mp ran
  obtain ⟨mid', once, later⟩ := Option.bind_eq_some_iff.mp (run_cons outcome second ▸ rest)
  exact ⟨mid, mid', before, once, later⟩

/-- Outcomes in a legal order have all that is asked of them. -/
theorem linear_of_run {s : State} (ran : run after none s.outcomes = some s.user) : Linear s := by
  refine ⟨⟨s.outcomes, .refl _, ran⟩, fun before between rest user user' split => ?_,
    fun before user rest split kept => ?_⟩
  · by_contra kept
    rw [split, List.append_assoc, List.cons_append] at ran
    obtain ⟨_, mid, _, added, later⟩ := run_after_split ran
    obtain rfl : mid = some user := by grind [after]
    -- the entry is still there when the second object is stored
    obtain ⟨found, _, between, again, _⟩ := run_after_split later
    obtain ⟨rfl, -, -⟩ := run_after_some between kept
    simp [after] at again
  · rw [split] at ran
    obtain ⟨_, mid, _, seen, later⟩ := run_after_split ran
    obtain rfl : mid = some user := by grind [after]
    obtain ⟨now, -, listed⟩ := run_after_some later kept
    exact ⟨now, listed⟩

/-! ### Calls that do not overlap -/

/-- An addition in flight has found no entry and a deletion has found one, which are still as they
were found. -/
structure Inv (s : State) : Prop where
  legal : run after none s.outcomes = some s.user
  adding : s.adding = [] ∨ (∃ user, s.adding = [user]) ∧ s.user = none
  removing : s.closing = [] ∧ s.deleting = [] ∨
    ∃ user, s.user = some user ∧
      (s.closing = [user] ∧ s.deleting = [] ∨ s.closing = [] ∧ s.deleting = [user])

theorem Inv.step {s s' : State} {event : Event} (inv : Inv s)
    (stepped : stepAlone s event = some s') : Inv s' := by
  obtain ⟨legal, adding, removing⟩ := inv
  have logged (outcome : Outcome) :
      run after none (s.outcomes ++ [outcome]) = after s.user outcome := by
    rw [run_append, legal]
    simp [run]
  -- a call that goes on past its load is the only one of its kind
  cases event with
  | addUser | store | delUser | close | delete | authUser | listUsers =>
    constructor <;> grind [stepAlone, State.alone, Calls.step, State.log, after]

/-- As long as calls of one kind do not overlap, they are as if they came one after another. -/
theorem calls_linear (events : List Event) {s : State} (ran : run stepAlone {} events = some s) :
    Linear s :=
  linear_of_run (run_keeps (fun _ _ _ inv stepped => inv.step stepped)
    (⟨rfl, .inl rfl, .inl ⟨rfl, rfl⟩⟩ : Inv {}) ran).legal

/-- An addition beside a deletion. -/
def Sample.beside : List Event :=
  [.addUser, .store 0, .authUser, .delUser, .addUser, .close 0, .delete 0]

theorem calls_linear_beside : ∃ s, run stepAlone {} Sample.beside = some s ∧ Linear s :=
  ⟨_, rfl, calls_linear Sample.beside rfl⟩

/-- Two calls of `AddUser` that both find no entry both succeed, and a connection holds an object
that is no longer listed. -/
theorem overlapping_adds :
    ∃ s, run step {} [.addUser, .addUser, .store 0, .authUser, .store 1, .listUsers] = some s ∧
      s.outcomes = [.added 0, .authenticated (some 0), .added 1, .listed (some 1)] ∧
      ¬ s.Sequential := by
  refine ⟨{ user := some 1, made := 2, outcomes := _ }, rfl, rfl, ?_⟩
  rintro ⟨order, perm, ran⟩
  have turns := count_added ran
  rw [perm.countP_eq, perm.count_eq] at turns
  exact absurd turns (by decide)

end TrojanGo.Statistic.Calls
