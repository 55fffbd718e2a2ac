import Mathlib.Logic.Basic

/-!
# Programs over atomic operations

A program is a tree of atomic operations on a shared state, resolved one by one with a fate. Its
weakest precondition is relative to a contract: an invariant, what the environment may do between
two operations, and what every own operation guarantees in return.
-/
namespace TrojanGo.Lib

/-- A program that issues operations and continues with their results. -/
inductive Prog (Op : Type) (Res : Op → Type) (α : Type) : Type where
  | ret (value : α)
  | call (op : Op) (next : Res op → Prog Op Res α)

namespace Prog

variable {Op : Type} {Res : Op → Type} {α β γ σ Fate : Type}

def bind : Prog Op Res α → (α → Prog Op Res β) → Prog Op Res β
  | .ret value, f => f value
  | .call op next, f => .call op fun result => (next result).bind f

instance : Monad (Prog Op Res) where
  pure := .ret
  bind := .bind

/-- The program that issues one operation and returns its result. -/
def ask (op : Op) : Prog Op Res (Res op) := .call op .ret

/-- The same program over a larger set of operations. -/
def embed {Op' : Type} {Res' : Op' → Type} (f : Op → Op') (back : (op : Op) → Res' (f op) → Res op) :
    Prog Op Res α → Prog Op' Res' α
  | .ret value => .ret value
  | .call op next => .call (f op) fun result => (next (back op result)).embed f back

/-- How one operation acts on the state under a given fate. -/
abbrev Exec (σ Fate : Type) (Op : Type) (Res : Op → Type) :=
  Fate → σ → (op : Op) → Option (Res op × σ)

/-! ### Sequential runs -/

/-- A sequential run either returns or stops when its schedule of fates is used up. -/
inductive Outcome (α : Type) : Type where
  | returned (value : α)
  | stopped
  deriving DecidableEq, Repr

/-- Run a program alone. The end of the schedule is a crash before the next operation. -/
def run (exec : Exec σ Fate Op Res) : Prog Op Res α → List Fate → σ → Outcome α × σ
  | .ret value, _, s => (.returned value, s)
  | .call _ _, [], s => (.stopped, s)
  | .call op next, fate :: fates, s =>
    match exec fate s op with
    | none => (.stopped, s)
    | some (result, s') => (next result).run exec fates s'

variable {op : Op} {next : Res op → Prog Op Res α} {fates : List Fate} {s : σ}

variable {exec : Exec σ Fate Op Res}

theorem run_ask {fate : Fate} {s' : σ} {result : Res op} (done : exec fate s op = some (result, s')) :
    (ask op >>= next).run exec (fate :: fates) s = (next result).run exec fates s' := by
  have issued : ask op >>= next = .call op next := rfl
  simp only [issued, run, done]

variable {p : Prog Op Res α}

theorem run_of_outcome {outcome : Outcome α} (ended : (p.run exec fates s).1 = outcome) :
    p.run exec fates s = (outcome, (p.run exec fates s).2) := by
  rw [← ended]

/-- Interpret a program whose operations always take effect. -/
def eval (step : σ → (op : Op) → Res op × σ) : Prog Op Res α → σ → α × σ
  | .ret value, s => (value, s)
  | .call op next, s => (next (step s op).1).eval step (step s op).2

/-- Every operation the run performs is one that `allowed` admits in its state and with its
fate. -/
def Fares (exec : Exec σ Fate Op Res) (allowed : Fate → σ → Op → Prop) :
    Prog Op Res α → List Fate → σ → Prop
  | .ret _, _, _ => True
  | .call _ _, [], _ => True
  | .call op next, fate :: fates, s =>
    allowed fate s op ∧ ∀ result s', exec fate s op = some (result, s') →
      (next result).Fares exec allowed fates s'

/-- The same without regard to the fates. -/
abbrev RunMeets (exec : Exec σ Fate Op Res) (admits : σ → Op → Prop) (p : Prog Op Res α)
    (fates : List Fate) (s : σ) : Prop :=
  p.Fares exec (fun _ => admits) fates s

/-- Every operation the program can issue is one of the allowed ones. -/
def Only (allowed : Op → Prop) : Prog Op Res α → Prop
  | .ret _ => True
  | .call op next => allowed op ∧ ∀ result, (next result).Only allowed

variable {allowed : Op → Prop}

theorem Only.mono {allowed' : Op → Prop} (weaker : ∀ op, allowed op → allowed' op)
    (only : p.Only allowed) : p.Only allowed' := by
  induction p with
  | ret value => trivial
  | call op next ih => exact ⟨weaker op only.1, fun result => ih result (only.2 result)⟩

@[simp] theorem eval_pure (step : σ → (op : Op) → Res op × σ) (value : α) (s : σ) :
    (pure value : Prog Op Res α).eval step s = (value, s) :=
  rfl

theorem eval_ask (step : σ → (op : Op) → Res op × σ) (op : Op) (next : Res op → Prog Op Res α)
    (s : σ) : (ask op >>= next).eval step s = (next (step s op).1).eval step (step s op).2 :=
  rfl

theorem eval_step {step : σ → (op : Op) → Res op × σ} {result : Res op} {s' : σ}
    (done : step s op = (result, s')) :
    (ask op >>= next).eval step s = (next result).eval step s' := by
  rw [eval_ask, done]

theorem run_eval (step : Fate → σ → (op : Op) → Res op × σ) (fate : Fate) (p : Prog Op Res α)
    (s : σ) : ∃ count, p.run (fun fate s op => some (step fate s op)) (List.replicate count fate) s =
      (.returned (p.eval (step fate) s).1, (p.eval (step fate) s).2) := by
  induction p generalizing s with
  | ret value => exact ⟨0, rfl⟩
  | call op next ih =>
    obtain ⟨count, ran⟩ := ih (step fate s op).1 (step fate s op).2
    exact ⟨count + 1, ran⟩

theorem eval_bind (step : σ → (op : Op) → Res op × σ) (p : Prog Op Res α)
    (f : α → Prog Op Res β) (s : σ) :
    (p >>= f).eval step s = (f (p.eval step s).1).eval step (p.eval step s).2 := by
  induction p generalizing s with
  | ret value => rfl
  | call op next ih => exact ih _ _

theorem Only.ret (value : α) : (pure value : Prog Op Res α).Only allowed :=
  trivial

theorem Only.ask (holds : allowed op) : (Prog.ask op : Prog Op Res (Res op)).Only allowed :=
  ⟨holds, fun _ => trivial⟩

theorem Only.step (holds : allowed op) (rest : ∀ result, (next result).Only allowed) :
    (Prog.ask op >>= next).Only allowed :=
  ⟨holds, rest⟩

variable {f : α → Prog Op Res β}

theorem Only.bind (first : p.Only allowed) (second : ∀ value, (f value).Only allowed) :
    (p >>= f).Only allowed := by
  induction p with
  | ret value => exact second value
  | call op next ih => exact ⟨first.1, fun result => ih result (first.2 result)⟩

attribute [grind ←] Only.ret Only.ask Only.bind

theorem only_embed {Op' : Type} {Res' : Op' → Type} {f : Op → Op'}
    {back : (op : Op) → Res' (f op) → Res op} {allowed : Op' → Prop} (all : ∀ op, allowed (f op))
    (p : Prog Op Res α) : (p.embed f back).Only allowed := by
  induction p with
  | ret value => trivial
  | call op next ih => exact ⟨all op, fun result => ih (back op result)⟩

/-- Every operation the program can issue is allowed, and its value satisfies `post`, as long
as the operations answer as `answers` says. -/
def Yields (allowed : Op → Prop) (answers : (op : Op) → Res op → Prop) :
    Prog Op Res α → (α → Prop) → Prop
  | .ret value, post => post value
  | .call op next, post =>
    allowed op ∧ ∀ result, answers op result → (next result).Yields allowed answers post

section Yields

variable {allowed : Op → Prop} {answers : (op : Op) → Res op → Prop}

variable {post : α → Prop}

theorem yields_ask (issued : allowed op)
    (rest : ∀ result, answers op result → (next result).Yields allowed answers post) :
    (ask op >>= next).Yields allowed answers post :=
  ⟨issued, rest⟩

theorem yields_bind {mid : α → Prop} {post : β → Prop} (first : p.Yields allowed answers mid)
    (second : ∀ value, mid value → (f value).Yields allowed answers post) :
    (p >>= f).Yields allowed answers post := by
  induction p with
  | ret value => exact second value first
  | call op next ih =>
    exact ⟨first.1, fun result answered => ih result (first.2 result answered)⟩

theorem Only.yields (only : p.Only allowed) : p.Yields allowed answers fun _ => True := by
  induction p with
  | ret value => trivial
  | call op next ih => exact ⟨only.1, fun result _ => ih result (only.2 result)⟩

theorem Yields.only (yields : p.Yields allowed (fun _ _ => True) post) :
    p.Only allowed := by
  induction p with
  | ret value => trivial
  | call op next ih => exact ⟨yields.1, fun result => ih result (yields.2 result trivial)⟩

end Yields

/-! ### Weakest preconditions -/

/-- The terms on which a program shares its state with an environment. -/
structure Contract (σ : Type) (Op : Type) where
  /-- the operations that the considered runs perform -/
  admits : σ → Op → Prop
  /-- holds whenever no operation is in progress -/
  inv : σ → Prop
  /-- what the environment may do between two own operations -/
  rely : σ → σ → Prop
  /-- what every own operation does -/
  guar : σ → σ → Prop

/-- The environment may do nothing, and may do several things in a row. -/
structure Contract.Lawful (C : Contract σ Op) : Prop where
  refl : ∀ s, C.rely s s
  trans : ∀ s s' s'', C.rely s s' → C.rely s' s'' → C.rely s s''

/-- The environment keeps the assertion. -/
def Contract.Stable (C : Contract σ Op) (known : σ → Prop) : Prop :=
  ∀ s s', C.rely s s' → C.inv s' → known s → known s'

theorem Contract.Stable.and {C : Contract σ Op} {first second : σ → Prop} (one : C.Stable first)
    (two : C.Stable second) : C.Stable fun s => first s ∧ second s :=
  fun s s' related inv known => ⟨one s s' related inv known.1, two s s' related inv known.2⟩

/-- Started in `s`, the program keeps the contract and ends only in states satisfying `post`. -/
def wp (exec : Exec σ Fate Op Res) (C : Contract σ Op) :
    Prog Op Res α → (α → σ → Prop) → σ → Prop
  | .ret value, post, s => ∀ s', C.rely s s' → C.inv s' → post value s'
  | .call op next, post, s => ∀ s', C.rely s s' → C.inv s' → C.admits s' op →
      ∀ fate result s'', exec fate s' op = some (result, s'') →
        C.inv s'' ∧ C.guar s' s'' ∧ (next result).wp exec C post s''

section Rules

variable {exec : Exec σ Fate Op Res} {C : Contract σ Op}

variable {post : α → σ → Prop}

/-- The rule for an operation followed by a continuation. -/
theorem wp_ask (holds : ∀ s', C.rely s s' → C.inv s' → C.admits s' op →
      ∀ fate result s'', exec fate s' op = some (result, s'') →
        C.inv s'' ∧ C.guar s' s'' ∧ wp exec C (next result) post s'') :
    wp exec C (ask op >>= next) post s :=
  holds

/-- A precondition may be weakened to one that already accounts for the environment. -/
theorem wp_intro (lawful : C.Lawful) (holds : ∀ s', C.rely s s' → C.inv s' → wp exec C p post s') :
    wp exec C p post s := by
  cases p with
  | ret | call =>
    intro s' related inv
    exact holds s' related inv s' (lawful.refl s') inv

theorem wp_rely (lawful : C.Lawful) {s' : σ} (related : C.rely s s') (holds : wp exec C p post s) :
    wp exec C p post s' := by
  cases p with
  | ret | call =>
    intro s'' later
    exact holds s'' (lawful.trans s s' s'' related later)

theorem wp_mono {post' : α → σ → Prop}
    (weaker : ∀ value s', C.inv s' → post value s' → post' value s') (holds : wp exec C p post s) :
    wp exec C p post' s := by
  induction p generalizing s with
  | ret value =>
    intro s' related inv
    exact weaker value s' inv (holds s' related inv)
  | call op next ih =>
    intro s' related inv admitted fate result s'' done
    obtain ⟨inv', guarantee, rest⟩ := holds s' related inv admitted fate result s'' done
    exact ⟨inv', guarantee, ih result rest⟩

theorem wp_bind (lawful : C.Lawful) {post : β → σ → Prop}
    (holds : wp exec C p (fun value s' => wp exec C (f value) post s') s) :
    wp exec C (p >>= f) post s := by
  induction p generalizing s with
  | ret value => exact wp_intro lawful holds
  | call op next ih =>
    intro s' related inv admitted fate result s'' done
    obtain ⟨inv', guarantee, rest⟩ := holds s' related inv admitted fate result s'' done
    exact ⟨inv', guarantee, ih result rest⟩

/-- Sequencing with an intermediate assertion. -/
theorem wp_seq (lawful : C.Lawful) {mid : α → σ → Prop} {post : β → σ → Prop}
    (first : wp exec C p mid s)
    (second : ∀ value s', C.inv s' → mid value s' → wp exec C (f value) post s') :
    wp exec C (p >>= f) post s :=
  wp_bind lawful (wp_mono second first)

variable {known : σ → Prop}

/-- The rule for an operation under an assertion that the environment keeps. -/
theorem wp_op (stable : C.Stable known) (holds : known s)
    (step : ∀ s, C.inv s → known s → C.admits s op →
      ∀ fate result s', exec fate s op = some (result, s') →
        C.inv s' ∧ C.guar s s' ∧ wp exec C (next result) post s') :
    wp exec C (ask op >>= next) post s :=
  fun s' related inv => step s' inv (stable s s' related inv holds)

theorem wp_return {value : α} (stable : C.Stable known) (holds : known s)
    (ends : ∀ s, C.inv s → known s → post value s) :
    wp exec C (pure value : Prog Op Res α) post s :=
  fun s' related inv => ends s' inv (stable s s' related inv holds)

theorem wp_value {value : α} (stable : C.Stable (post value)) (holds : post value s) :
    wp exec C (pure value : Prog Op Res α) post s :=
  fun s' related inv => stable s s' related inv holds

/-- A program whose operations keep an assertion and answer as it expects. -/
theorem wp_yields {answers : (op : Op) → Res op → Prop} {post : α → Prop}
    (yields : p.Yields allowed answers post) (stable : C.Stable known) (holds : known s)
    (keeps : ∀ s op, C.inv s → known s → C.admits s op → allowed op →
      ∀ fate result s', exec fate s op = some (result, s') →
        C.inv s' ∧ C.guar s s' ∧ known s' ∧ answers op result) :
    wp exec C p (fun value s' => post value ∧ known s') s := by
  induction p generalizing s with
  | ret value => exact fun s' related inv => ⟨yields, stable s s' related inv holds⟩
  | call op next ih =>
    intro s' related inv admitted fate result s'' done
    obtain ⟨inv', guarantee, known', answered⟩ := keeps s' op inv
      (stable s s' related inv holds) admitted yields.1 fate result s'' done
    exact ⟨inv', guarantee, ih result (yields.2 result answered) known'⟩

/-- A program of operations that keep an assertion keeps it. -/
theorem wp_only (only : p.Only allowed) (stable : C.Stable known) (holds : known s)
    (keeps : ∀ s op, C.inv s → known s → C.admits s op → allowed op →
      ∀ fate result s', exec fate s op = some (result, s') →
        C.inv s' ∧ C.guar s s' ∧ known s') :
    wp exec C p (fun _ => known) s := by
  have yields : p.Yields allowed (fun _ _ => True) fun _ => True := only.yields
  refine wp_mono (fun _ _ _ ended => ended.2) (wp_yields yields stable holds ?_)
  intro s op inv known admitted issued fate result s' done
  obtain ⟨inv', guarantee, known'⟩ := keeps s op inv known admitted issued fate result s' done
  exact ⟨inv', guarantee, known', trivial⟩

/-- A program in a state space that only grows knows that it has grown since. -/
theorem wp_since {grows : σ → σ → Prop}
    (trans : ∀ s s' s'', grows s s' → grows s' s'' → grows s s'')
    (rely : ∀ s s', C.rely s s' → grows s s')
    (ops : ∀ fate s op result s', exec fate s op = some (result, s') → grows s s')
    (holds : wp exec C p post s) :
    wp exec C p (fun value s' => post value s' ∧ grows s s') s := by
  induction p generalizing s with
  | ret value => exact fun s' related inv => ⟨holds s' related inv, rely s s' related⟩
  | call op next ih =>
    intro s' related inv admitted fate result s'' done
    obtain ⟨inv', guarantee, rest⟩ := holds s' related inv admitted fate result s'' done
    have grown := trans s s' s'' (rely s s' related) (ops fate s' op result s'' done)
    refine ⟨inv', guarantee, wp_mono ?_ (ih result rest)⟩
    rintro value later _ ⟨established, since⟩
    exact ⟨established, trans s s'' later grown since⟩

theorem run_sound (alone : ∀ s, C.rely s s) (inv : C.inv s)
    (meets : p.RunMeets exec C.admits fates s) (holds : wp exec C p post s) :
    C.inv (p.run exec fates s).2 ∧
      ∀ value, (p.run exec fates s).1 = .returned value → post value (p.run exec fates s).2 := by
  induction p generalizing fates s with
  | ret value =>
    refine ⟨inv, ?_⟩
    intro value' returned
    cases returned
    exact holds s (alone s) inv
  | call op next ih =>
    cases fates with
    | nil => exact ⟨inv, fun value returned => by cases returned⟩
    | cons fate fates =>
      simp only [run]
      cases done : exec fate s op with
      | none => exact ⟨inv, fun value returned => by cases returned⟩
      | some step =>
        obtain ⟨result, s'⟩ := step
        obtain ⟨inv', _, rest⟩ := holds s (alone s) inv meets.1 fate result s' done
        exact ih result inv' (meets.2 result s' done) rest

end Rules

end Prog

end TrojanGo.Lib
