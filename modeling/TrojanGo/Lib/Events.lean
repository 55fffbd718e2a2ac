import Mathlib.Data.List.Basic

/-!
# Systems driven by events

A system is a function from states and events to states; an event that cannot happen gives none.
-/
namespace TrojanGo.Lib.Events

variable {σ Event : Type} (step : σ → Event → Option σ)

/-- The state after a list of events. -/
def run (s : σ) (events : List Event) : Option σ := events.foldlM step s

/-- No event of a kind can happen. -/
def Rests (mine : Event → Bool) (s : σ) : Prop := ∀ event, mine event → step s event = none

variable {step} {s s' : σ} {inv : σ → Prop} {mine : Event → Bool} {measure : σ → Nat}

theorem run_append (first second : List Event) :
    run step s (first ++ second) = (run step s first).bind (run step · second) :=
  List.foldlM_append

theorem run_cons (event : Event) (events : List Event) :
    run step s (event :: events) = (step s event).bind (run step · events) :=
  List.foldlM_cons

/-- What every event keeps, a run keeps. -/
theorem run_keeps (keeps : ∀ s event s', inv s → step s event = some s' → inv s')
    {events : List Event} (holds : inv s) (ran : run step s events = some s') : inv s' := by
  induction events generalizing s with
  | nil =>
    cases ran
    exact holds
  | cons event events ih =>
    obtain ⟨mid, stepped, rest⟩ := Option.bind_eq_some_iff.mp (run_cons event events ▸ ran)
    exact ih (keeps s event mid holds stepped) rest

theorem count_le (keeps : ∀ s event s', inv s → step s event = some s' →
      inv s' ∧ measure s' + (if mine event then 1 else 0) ≤ measure s)
    {events : List Event} (holds : inv s) (ran : run step s events = some s') :
    events.countP mine ≤ measure s := by
  induction events generalizing s with
  | nil => exact Nat.zero_le _
  | cons event events ih =>
    obtain ⟨mid, stepped, rest⟩ := Option.bind_eq_some_iff.mp (run_cons event events ▸ ran)
    obtain ⟨holds', falls⟩ := keeps s event mid holds stepped
    have := ih holds' rest
    rw [List.countP_cons]
    omega

/-- Events that lower a measure can go on until none of them is left. -/
theorem exists_rests (falls : ∀ s event s', inv s → mine event → step s event = some s' →
      inv s' ∧ measure s' < measure s) (holds : inv s) :
    ∃ events s', run step s events = some s' ∧ inv s' ∧ Rests step mine s' := by
  induction bound : measure s using Nat.strongRecOn generalizing s with
  | ind n ih =>
    by_cases rests : Rests step mine s
    · exact ⟨[], s, rfl, holds, rests⟩
    · simp only [Rests, not_forall] at rests
      obtain ⟨event, isMine, possible⟩ := rests
      obtain ⟨mid, stepped⟩ := Option.ne_none_iff_exists'.mp possible
      obtain ⟨holds', less⟩ := falls s event mid holds isMine stepped
      obtain ⟨events, s', ran, after, rests⟩ := ih _ (bound ▸ less) holds' rfl
      exact ⟨event :: events, s', by rw [run_cons, stepped]; exact ran, after, rests⟩

end TrojanGo.Lib.Events
