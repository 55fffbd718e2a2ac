import Mathlib.Data.List.Basic

/-!
# Rewriting rows under a unique index

A loop that rewrites the rows of a table statement by statement, where every statement is
refused if it would leave two clashing rows. Which loops succeed, and what they leave.
-/
namespace TrojanGo.Lib

open List

variable {ρ σ τ ε : Type}

/-- Several edits, the first one first. -/
def applyAll (edits : List (ρ → ρ)) (row : ρ) : ρ := edits.foldl (fun row edit => edit row) row

@[simp] theorem map_applyAll_nil (table : List ρ) : table.map (applyAll []) = table :=
  map_id table

@[simp] theorem map_applyAll_cons (edit : ρ → ρ) (edits : List (ρ → ρ)) (table : List ρ) :
    table.map (applyAll (edit :: edits)) = (table.map edit).map (applyAll edits) := by
  rw [map_map]
  rfl

/-- What a sequence of edits keeps if every single one does. -/
theorem applyAll_keeps {P : ρ → Prop} {edits : List (ρ → ρ)}
    (keeps : ∀ edit ∈ edits, ∀ row, P row → P (edit row)) {row : ρ} (holds : P row) :
    P (applyAll edits row) := by
  induction edits generalizing row with
  | nil => exact holds
  | cons edit edits ih =>
    exact ih (fun e mem => keeps e (mem_cons_of_mem _ mem)) (keeps edit mem_cons_self row holds)

/-- A statement that edits every row, unless two rows would clash afterwards. -/
structure Guarded (rows : σ → List ρ) (clash : ρ → ρ → Prop) (step : StateT σ (Except ε) Unit)
    (edit : ρ → ρ) : Prop where
  effect : ∀ s s', step s = .ok ((), s') →
    rows s' = (rows s).map edit ∧ (rows s').Pairwise fun a b => ¬ clash a b
  total : ∀ s, ((rows s).map edit).Pairwise (fun a b => ¬ clash a b) → ∃ s', step s = .ok ((), s')

variable {rows : σ → List ρ} {clash : ρ → ρ → Prop} {step : τ → StateT σ (Except ε) Unit}
  {edit : τ → ρ → ρ}

/-- At no point of the loop do two rows clash. -/
def Apart (clash : ρ → ρ → Prop) (edit : τ → ρ → ρ) (todo : List τ) (table : List ρ) : Prop :=
  ∀ done t later, todo = done ++ t :: later →
    (table.map (applyAll ((done ++ [t]).map edit))).Pairwise fun a b => ¬ clash a b

variable {todo : List τ}

theorem apart_cons {t : τ} {table : List ρ} :
    Apart clash edit (t :: todo) table ↔
      (table.map (edit t)).Pairwise (fun a b => ¬ clash a b) ∧
        Apart clash edit todo (table.map (edit t)) := by
  constructor
  · intro apart
    constructor
    · have first := apart [] t todo rfl
      simpa only [nil_append, map_cons, map_nil, map_applyAll_cons, map_applyAll_nil]
        using first
    · rintro done u later rfl
      have later := apart (t :: done) u later rfl
      simpa only [cons_append, map_cons, map_applyAll_cons] using later
  · rintro ⟨first, rest⟩ done u later split
    cases done with
    | nil =>
      obtain ⟨rfl, rfl⟩ := cons.inj split
      simpa only [nil_append, map_cons, map_nil, map_applyAll_cons, map_applyAll_nil]
        using first
    | cons d done =>
      obtain ⟨rfl, rfl⟩ := cons.inj split
      have later := rest done u later rfl
      simpa only [cons_append, map_cons, map_applyAll_cons] using later

/-- A loop whose steps all fail has nothing to do. -/
theorem forM_fails (fails : ∀ t ∈ todo, ∀ s s', step t s ≠ .ok ((), s')) {s s' : σ}
    (ran : forM todo step s = .ok ((), s')) : todo = [] := by
  cases todo with
  | nil => rfl
  | cons t todo =>
    simp only [forM_cons, bind, StateT.bind, Except.bind] at ran
    split at ran
    · cases ran
    next stepped => exact absurd stepped (fails t mem_cons_self _ _)

/-- What every statement of a loop keeps, the loop keeps. -/
theorem forM_keeps {α : Type} {f : σ → α}
    (keeps : ∀ t ∈ todo, ∀ s s', step t s = .ok ((), s') → f s' = f s) {s s' : σ}
    (ran : forM todo step s = .ok ((), s')) : f s' = f s := by
  induction todo generalizing s with
  | nil =>
    cases ran
    rfl
  | cons t todo ih =>
    simp only [forM_cons, bind, StateT.bind, Except.bind] at ran
    split at ran
    · cases ran
    next stepped => grind

/-- What a loop leaves whose statements edit all rows and leave no clash. -/
theorem forM_effect (effect : ∀ t ∈ todo, ∀ s s', step t s = .ok ((), s') →
      rows s' = (rows s).map (edit t) ∧ (rows s').Pairwise fun a b => ¬ clash a b) {s s' : σ}
    (ran : forM todo step s = .ok ((), s')) :
    rows s' = (rows s).map (applyAll (todo.map edit)) ∧ Apart clash edit todo (rows s) := by
  induction todo generalizing s with
  | nil =>
    cases ran
    refine ⟨(map_applyAll_nil _).symm, ?_⟩
    intro done t later split
    simp at split
  | cons t todo ih =>
    simp only [forM_cons, bind, StateT.bind, Except.bind] at ran
    split at ran
    · cases ran
    next stepped =>
      obtain ⟨moved, free⟩ := effect t mem_cons_self _ _ stepped
      obtain ⟨left, apart⟩ := ih (fun u mem => effect u (mem_cons_of_mem _ mem)) ran
      rw [moved] at left apart free
      refine ⟨?_, apart_cons.mpr ⟨free, apart⟩⟩
      rw [left, map_cons, map_applyAll_cons]

/-- The loop succeeds exactly if the rows stay apart all along. -/
theorem forM_ok_iff (guarded : ∀ t ∈ todo, Guarded rows clash (step t) (edit t)) (s : σ) :
    (∃ s', forM todo step s = .ok ((), s')) ↔ Apart clash edit todo (rows s) := by
  constructor
  · rintro ⟨s', ran⟩
    exact (forM_effect (fun t mem => (guarded t mem).effect) ran).2
  intro apart
  induction todo generalizing s with
  | nil => exact ⟨s, rfl⟩
  | cons t todo ih =>
    obtain ⟨free, rest⟩ := apart_cons.mp apart
    obtain ⟨mid, stepped⟩ := (guarded t mem_cons_self).total s free
    have moved := ((guarded t mem_cons_self).effect _ _ stepped).1
    obtain ⟨s', ran⟩ := ih (fun u mem => guarded u (mem_cons_of_mem _ mem)) mid
      (moved ▸ rest)
    refine ⟨s', ?_⟩
    simpa only [forM_cons, bind, StateT.bind, Except.bind, stepped] using ran

end TrojanGo.Lib
