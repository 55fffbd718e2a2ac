import Mathlib.Order.Defs.Unbundled
import TrojanGo.Lib.Prog

/-!
# Programs that run alone

The contract of a program without an environment, programs that may end with an error, and
sessions: programs run one after another, where a schedule that is too short is a crash.
-/
namespace TrojanGo.Lib.Prog

variable {Op : Type} {Res : Op → Type} {α β ε σ Fate : Type}

/-- Nothing happens between two operations. -/
def Contract.alone (admits : σ → Op → Prop) (inv : σ → Prop) : Contract σ Op where
  admits := admits
  inv := inv
  rely := Eq
  guar := fun _ _ => True

variable {value : α} {post mid : α → σ → Prop}

section Rules

variable {exec : Exec σ Fate Op Res} {admits : σ → Op → Prop} {inv : σ → Prop} {s : σ}

theorem wp_done (holds : post value s) :
    wp exec (.alone admits inv) (pure value : Prog Op Res α) post s := by
  intro s' same _
  cases same
  exact holds

theorem wp_step {op : Op} {next : Res op → Prog Op Res α}
    (holds : ∀ fate result s', admits s op → exec fate s op = some (result, s') →
      inv s' ∧ wp exec (.alone admits inv) (next result) post s') :
    wp exec (.alone admits inv) (ask op >>= next) post s := by
  intro s' same _ admitted fate result s'' done
  cases same
  obtain ⟨kept, rest⟩ := holds fate result s'' admitted done
  exact ⟨kept, trivial, rest⟩

/-- The last operation of a program. -/
theorem wp_last {op : Op} {post : Res op → σ → Prop}
    (holds : ∀ fate result s', admits s op → exec fate s op = some (result, s') →
      inv s' ∧ post result s') :
    wp exec (.alone admits inv) (ask op : Prog Op Res (Res op)) post s := by
  intro s' same _ admitted fate result s'' done
  cases same
  obtain ⟨kept, established⟩ := holds fate result s'' admitted done
  exact ⟨kept, trivial, wp_done established⟩

variable {p : Prog Op Res α}

theorem wp_then {f : α → Prog Op Res β} {post : β → σ → Prop}
    (first : wp exec (.alone admits inv) p mid s)
    (second : ∀ value s', inv s' → mid value s' → wp exec (.alone admits inv) (f value) post s') :
    wp exec (.alone admits inv) (p >>= f) post s :=
  wp_seq ⟨fun _ => rfl, fun _ _ _ => Eq.trans⟩ first second

/-- A result that is passed on. -/
theorem wp_map {f : α → β} {post : β → σ → Prop}
    (holds : wp exec (.alone admits inv) p (fun value s' => post (f value) s') s) :
    wp exec (.alone admits inv) (p >>= fun value => pure (f value)) post s :=
  wp_then holds fun _ _ _ established => wp_done established

variable {within : σ → Prop} {allowed : Op → Prop}

/-- What was shown without an invariant holds with it. -/
theorem wp_with {post' : α → σ → Prop} (spec : wp exec (.alone admits fun _ => True) p post s)
    (holds : wp exec (.alone admits inv) p post' s) :
    wp exec (.alone admits inv) p (fun value s' => post value s' ∧ post' value s') s := by
  induction p generalizing s with
  | ret value => exact fun s' same kept => ⟨spec s' same trivial, holds s' same kept⟩
  | call op next ih =>
    intro s' same kept admitted fate result s'' done
    obtain ⟨_, _, first⟩ := spec s' same trivial admitted fate result s'' done
    obtain ⟨kept', _, second⟩ := holds s' same kept admitted fate result s'' done
    exact ⟨kept', trivial, ih result first second⟩

theorem wp_call (only : p.Only allowed)
    (spec : wp exec (.alone admits fun _ => True) p post s) (start : within s)
    (step : ∀ s op, within s → admits s op → allowed op → ∀ fate result s',
      exec fate s op = some (result, s') → within s') (safe : ∀ s', within s' → inv s') :
    wp exec (.alone admits inv) p (fun value s' => post value s' ∧ within s') s := by
  refine wp_with spec (wp_only only (fun _ _ same _ kept => same ▸ kept) start ?_)
  intro s op _ inside admitted issued fate result s' done
  have kept := step s op inside admitted issued fate result s' done
  exact ⟨safe s' kept, trivial, kept⟩

theorem wp_steps {R : σ → σ → Prop} [IsPreorder σ R] (only : p.Only allowed)
    (spec : wp exec (.alone admits fun _ => True) p post s)
    (step : ∀ {fate op result s s'}, allowed op → exec fate s op = some (result, s') → R s s')
    (safe : ∀ s', R s s' → inv s') :
    wp exec (.alone admits inv) p (fun value s' => post value s' ∧ R s s') s := by
  apply wp_call only spec (refl s) _ safe
  intro s₁ op before _ issued fate result s₂ done
  exact IsTrans.trans s s₁ s₂ before (step issued done)

/-- An invariant that holds at the start need not be mentioned. -/
theorem wp_free (start : inv s) (holds : wp exec (.alone admits inv) p post s) :
    wp exec (.alone admits fun _ => True) p post s := by
  induction p generalizing s with
  | ret value =>
    intro s' same _
    cases same
    exact holds s rfl start
  | call op next ih =>
    intro s' same _ admitted fate result s'' done
    cases same
    obtain ⟨kept, _, rest⟩ := holds s rfl start admitted fate result s'' done
    exact ⟨trivial, trivial, ih result kept rest⟩

theorem wp_trivial :
    wp exec (.alone admits fun _ => True) p (fun _ _ => True) s := by
  induction p generalizing s with
  | ret value => exact fun _ _ _ => trivial
  | call op next ih => exact fun _ _ _ _ _ result _ _ => ⟨trivial, trivial, ih result⟩

/-! ### Errors -/

variable {p : ExceptT ε (Prog Op Res) α} {f : α → ExceptT ε (Prog Op Res) β}

theorem only_try (first : p.run.Only allowed) (second : ∀ value, (f value).run.Only allowed) :
    (p >>= f).run.Only allowed := by
  apply Only.bind first
  intro result
  cases result with
  | ok value => exact second value
  | error e => trivial

theorem only_lift {p : Prog Op Res α} (only : p.Only allowed) :
    (ExceptT.lift p : ExceptT ε (Prog Op Res) α).run.Only allowed :=
  .bind only fun _ => trivial

theorem only_adapt {f : ε → β} (only : p.run.Only allowed) : (p.adapt f).run.Only allowed :=
  .bind only fun _ => trivial

attribute [grind ←] only_try only_lift only_adapt

/-- What holds after a success and after an error. -/
def outcome (good : α → σ → Prop) (bad : σ → Prop) : Except ε α → σ → Prop
  | .ok value, s => good value s
  | .error _, s => bad s

variable {bad : σ → Prop}

variable {good : α → σ → Prop}

theorem wp_outcome (holds : wp exec (.alone admits inv) p.run
      (fun result s' => outcome good bad result s' ∧ within s') s) :
    wp exec (.alone admits inv) p.run
      (outcome (fun value s' => good value s' ∧ within s') fun s' => bad s' ∧ within s') s := by
  refine wp_mono ?_ holds
  intro result s' _ established
  cases result with
  | ok | error => exact established

theorem wp_always (holds : wp exec (.alone admits inv) p.run (fun _ s' => within s') s) :
    wp exec (.alone admits inv) p.run (outcome (fun _ => within) within) s := by
  refine wp_mono ?_ holds
  intro result s' _ established
  cases result with
  | ok | error => exact established

/-- Sequencing of programs that may fail: an error ends the whole. -/
theorem wp_try {post : Except ε β → σ → Prop}
    (first : wp exec (.alone admits inv) p.run (outcome mid bad) s)
    (second : ∀ value s', inv s' → mid value s' →
      wp exec (.alone admits inv) (f value).run post s')
    (failed : ∀ e s', inv s' → bad s' → post (.error e) s') :
    wp exec (.alone admits inv) (p >>= f).run post s := by
  refine wp_then first ?_
  intro result s' kept established
  cases result with
  | ok value => exact second value s' kept established
  | error e => exact wp_done (failed e s' kept established)

/-- A program that cannot fail, or whose error the rest looks at. -/
theorem wp_lift {q : Prog Op Res α} {post : Except ε β → σ → Prop}
    (first : wp exec (.alone admits inv) q mid s) (second : ∀ value s', inv s' → mid value s' →
      wp exec (.alone admits inv) (f value).run post s') :
    wp exec (.alone admits inv) (ExceptT.lift q >>= f).run post s := by
  have lifted : wp exec (.alone admits inv) (ExceptT.lift q : ExceptT ε (Prog Op Res) α).run
      (outcome mid fun _ => False) s := wp_map first
  exact wp_try lifted second fun e s' _ never => False.elim never

theorem wp_throw {e : ε} {post : Except ε α → σ → Prop} (holds : post (.error e) s) :
    wp exec (.alone admits inv) (throw e : ExceptT ε (Prog Op Res) α).run post s :=
  wp_done holds

theorem wp_success {post : Except ε α → σ → Prop} (holds : post (.ok value) s) :
    wp exec (.alone admits inv) (pure value : ExceptT ε (Prog Op Res) α).run post s :=
  wp_done holds

/-- A different text for the error. -/
theorem wp_adapts {ε' : Type} {f : ε → ε'} {post : Except ε' α → σ → Prop}
    {before : Except ε α → σ → Prop} (holds : wp exec (.alone admits inv) p.run before s)
    (value : ∀ value s', before (.ok value) s' → post (.ok value) s')
    (text : ∀ e e' s', before (.error e) s' → post (.error e') s') :
    wp exec (.alone admits inv) (p.adapt f).run post s := by
  refine wp_then holds ?_
  intro result s' _ established
  cases result with
  | ok v => exact wp_done (value v s' established)
  | error e => exact wp_done (text e _ s' established)

theorem wp_adapt {f : ε → β} (holds : wp exec (.alone admits inv) p.run (outcome good bad) s) :
    wp exec (.alone admits inv) (p.adapt f).run (outcome good bad) s :=
  wp_adapts holds (fun _ _ established => established) fun _ _ _ established => established

/-- If an admitted run of the program succeeds, `good` holds of its result and the state. -/
def Ensures (exec : Exec σ Fate Op Res) (admits : σ → Op → Prop) (p : ExceptT ε (Prog Op Res) α)
    (good : α → σ → Prop) (s : σ) : Prop :=
  wp exec (.alone admits fun _ => True) p.run (outcome good fun _ => True) s

section Ensures

variable {p : ExceptT ε (Prog Op Res) α} {good : α → σ → Prop}

theorem ensures_bind {post : β → σ → Prop} (first : Ensures exec admits p good s)
    (second : ∀ value s', good value s' → Ensures exec admits (f value) post s') :
    Ensures exec admits (p >>= f) post s :=
  wp_try first (fun value s' _ established => second value s' established) fun _ _ _ _ => trivial

theorem ensures_pure (holds : good value s) :
    Ensures exec admits (pure value : ExceptT ε (Prog Op Res) α) good s :=
  wp_success holds

theorem ensures_trivial : Ensures exec admits p (fun _ _ => True) s := by
  refine wp_mono ?_ wp_trivial
  intro result _ _ _
  cases result <;> trivial

theorem ensures_throw {e : ε} : Ensures exec admits (throw e : ExceptT ε (Prog Op Res) α) good s :=
  wp_throw trivial

theorem ensures_mono {good' : α → σ → Prop} (weaker : ∀ value s', good value s' → good' value s')
    (holds : Ensures exec admits p good s) : Ensures exec admits p good' s := by
  refine wp_mono ?_ holds
  intro result s' _ established
  cases result with
  | ok value => exact weaker value s' established
  | error e => trivial

/-- A step that the rest does not depend on. -/
theorem ensures_after {post : β → σ → Prop}
    (rest : ∀ value s', Ensures exec admits (f value) post s') :
    Ensures exec admits (p >>= f) post s :=
  ensures_bind ensures_trivial fun value s' _ => rest value s'

/-- A success within what the whole program keeps to. -/
theorem ensures_with {within : σ → Prop} (holds : wp exec (.alone admits fun _ => True) p.run
      (fun result s' => outcome good (fun _ => True) result s' ∧ within s') s) :
    Ensures exec admits p (fun value s' => good value s' ∧ within s') s := by
  refine wp_mono ?_ holds
  intro result s' _ established
  cases result with
  | ok value => exact established
  | error e => trivial

/-- A program whose result the caller looks at. -/
theorem ensures_lift {q : Prog Op Res α} (holds : wp exec (.alone admits fun _ => True) q good s) :
    Ensures exec admits (ExceptT.lift q : ExceptT ε (Prog Op Res) α) good s :=
  wp_then holds fun _ _ _ established => wp_done established

end Ensures

end Rules

/-! ### Sessions -/

/-- Programs run one after another, each with its own schedule. -/
def session (exec : Exec σ Fate Op Res) : List (Prog Op Res α × List Fate) → σ → σ
  | [], s => s
  | (p, fates) :: jobs, s => session exec jobs (p.run exec fates s).2

/-- All of them fare as `allowed` says. -/
def InTurnFares (exec : Exec σ Fate Op Res) (allowed : Fate → σ → Op → Prop) :
    List (Prog Op Res α × List Fate) → σ → Prop
  | [], _ => True
  | (p, fates) :: jobs, s =>
    p.Fares exec allowed fates s ∧ InTurnFares exec allowed jobs (p.run exec fates s).2

abbrev SessionMeets (exec : Exec σ Fate Op Res) (admits : σ → Op → Prop)
    (jobs : List (Prog Op Res α × List Fate)) (s : σ) : Prop :=
  InTurnFares exec (fun _ => admits) jobs s

variable {exec : Exec σ Fate Op Res} {s : σ}

variable {p : Prog Op Res α} {s' : σ}

theorem runMeets_trivial (fates : List Fate) :
    p.RunMeets exec (fun _ _ => True) fates s := by
  induction p generalizing fates s with
  | ret value => trivial
  | call op next ih =>
    cases fates with
    | nil => trivial
    | cons fate fates => exact ⟨trivial, fun result s' _ => ih result fates⟩

variable {fates : List Fate} {admits : σ → Op → Prop} {allowed allowed' : Fate → σ → Op → Prop}

theorem Fares.mono (weaker : ∀ fate s op, allowed fate s op → allowed' fate s op)
    (fares : p.Fares exec allowed fates s) : p.Fares exec allowed' fates s := by
  induction p generalizing fates s with
  | ret value => trivial
  | call op next ih =>
    cases fates with
    | nil => trivial
    | cons fate fates =>
      refine ⟨weaker fate s op fares.1, ?_⟩
      intro result s' done
      exact ih result (fares.2 result s' done)

variable {jobs : List (Prog Op Res α × List Fate)}

theorem InTurnFares.mono (weaker : ∀ fate s op, allowed fate s op → allowed' fate s op)
    (fares : InTurnFares exec allowed jobs s) : InTurnFares exec allowed' jobs s := by
  induction jobs generalizing s with
  | nil => trivial
  | cons job jobs ih => exact ⟨fares.1.mono weaker, ih fares.2⟩

theorem inTurnFares_append {first second : List (Prog Op Res α × List Fate)} :
    InTurnFares exec allowed (first ++ second) s ↔ InTurnFares exec allowed first s ∧
      InTurnFares exec allowed second (session exec first s) := by
  induction first generalizing s with
  | nil => simp [InTurnFares, session]
  | cons job jobs ih => simp [InTurnFares, session, ih, and_assoc]

instance decideFares (exec : Exec σ Fate Op Res) (allowed : Fate → σ → Op → Prop)
    [∀ fate s op, Decidable (allowed fate s op)] :
    (p : Prog Op Res α) → (fates : List Fate) → (s : σ) →
      Decidable (p.Fares exec allowed fates s)
  | .ret _, _, _ => isTrue trivial
  | .call _ _, [], _ => isTrue trivial
  | .call op next, fate :: fates, s =>
    match executed : exec fate s op with
    | none => decidable_of_iff (allowed fate s op) (by simp [Fares, executed])
    | some (result, s') =>
      have := decideFares exec allowed (next result) fates s'
      decidable_of_iff (allowed fate s op ∧ (next result).Fares exec allowed fates s') (by
        simp only [Fares, executed, Option.some.injEq, Prod.mk.injEq]
        constructor
        · rintro ⟨fares, rest⟩
          refine ⟨fares, ?_⟩
          rintro _ _ ⟨rfl, rfl⟩
          exact rest
        · rintro ⟨fares, rest⟩
          exact ⟨fares, rest result s' ⟨rfl, rfl⟩⟩)

instance decideInTurnFares (exec : Exec σ Fate Op Res) (allowed : Fate → σ → Op → Prop)
    [∀ fate s op, Decidable (allowed fate s op)] :
    (jobs : List (Prog Op Res α × List Fate)) → (s : σ) →
      Decidable (InTurnFares exec allowed jobs s)
  | [], _ => isTrue trivial
  | (p, fates) :: jobs, s =>
    have := decideInTurnFares exec allowed jobs (p.run exec fates s).2
    inferInstanceAs (Decidable (_ ∧ _))

/-- A session of programs that keep an invariant keeps it, wherever its programs crash. -/
theorem session_sound {inv : σ → Prop} (keeps : ∀ job ∈ jobs, ∀ s, inv s →
      wp exec (.alone admits inv) job.1 (fun _ _ => True) s) (start : inv s)
    (meets : SessionMeets exec admits jobs s) : inv (session exec jobs s) := by
  induction jobs generalizing s with
  | nil => exact start
  | cons job jobs ih =>
    have kept := (run_sound (fun _ => rfl) start meets.1
      (keeps job List.mem_cons_self s start)).1
    exact ih (fun job mem => keeps job (List.mem_cons_of_mem _ mem)) kept meets.2

/-! ### Sequences of calls that return -/

open Classical in
/-- The operations that fare as `allowed` says, and no others. -/
noncomputable def restrict (exec : Exec σ Fate Op Res) (allowed : Fate → σ → Op → Prop) :
    Exec σ Fate Op Res :=
  fun fate s op => if allowed fate s op then exec fate s op else none

theorem restrict_eq_some {fate : Fate} {op : Op} {result : Res op}
    (done : restrict exec allowed fate s op = some (result, s')) :
    allowed fate s op ∧ exec fate s op = some (result, s') := by
  unfold restrict at done
  split at done
  next fares => exact ⟨fares, done⟩
  · cases done

theorem run_restrict (fares : p.Fares exec allowed fates s) :
    p.run (restrict exec allowed) fates s = p.run exec fates s := by
  induction p generalizing fates s with
  | ret value => rfl
  | call op next ih =>
    cases fates with
    | nil => rfl
    | cons fate fates =>
      simp only [run, restrict, if_pos fares.1]
      cases executed : exec fate s op with
      | none => rfl
      | some done => exact ih done.1 (fares.2 done.1 done.2 executed)

/-- Programs run one after another, each until it returns. -/
def inTurn (exec : Exec σ Fate Op Res) : List (Prog Op Res α × List Fate) → σ → Option σ
  | [], s => some s
  | (p, fates) :: jobs, s =>
    match p.run exec fates s with
    | (.returned _, s') => inTurn exec jobs s'
    | (.stopped, _) => none

/-- A run that fares as allowed and returns has established the postcondition. -/
theorem run_returned
    (holds : wp (restrict exec allowed) (.alone (fun _ _ => True) fun _ => True) p post s)
    (fares : p.Fares exec allowed fates s) (ran : p.run exec fates s = (.returned value, s')) :
    post value s' := by
  have sound := (run_sound (fun _ => rfl) trivial (runMeets_trivial fates) holds).2
  rw [run_restrict fares, ran] at sound
  exact sound value rfl

/-- The first of several programs has returned, and the others have run after it. -/
theorem inTurn_cons (ran : inTurn exec ((p, fates) :: jobs) s = some s') :
    ∃ value s'', p.run exec fates s = (.returned value, s'') ∧ inTurn exec jobs s'' = some s' := by
  simp only [inTurn] at ran
  cases result : p.run exec fates s with
  | mk outcome s'' =>
    rw [result] at ran
    cases outcome with
    | stopped => cases ran
    | returned value => exact ⟨value, s'', rfl, ran⟩

/-- What every program establishes from where it holds, holds whenever one has returned. -/
theorem inTurn_sound {holds : σ → Prop}
    (keeps : ∀ job ∈ jobs, ∀ s, holds s → wp (restrict exec allowed)
      (.alone (fun _ _ => True) fun _ => True) job.1 (fun _ => holds) s) (start : holds s)
    (fares : InTurnFares exec allowed jobs s) (ran : inTurn exec jobs s = some s') : holds s' := by
  induction jobs generalizing s with
  | nil =>
    cases ran
    exact start
  | cons job jobs ih =>
    obtain ⟨p, fates⟩ := job
    obtain ⟨value, s'', first, rest⟩ := inTurn_cons ran
    have faring := fares.2
    rw [first] at faring
    exact ih (fun job mem => keeps job (List.mem_cons_of_mem _ mem))
      (run_returned (keeps (p, fates) List.mem_cons_self s start) fares.1 first) faring rest

/-! ### Runs that perform a given operation -/

/-- An operation that was performed, with its result and the state it left. -/
structure Event (σ Op : Type) (Res : Op → Type) where
  op : Op
  result : Res op
  state : σ

def history (exec : Exec σ Fate Op Res) :
    Prog Op Res α → List Fate → σ → List (Event σ Op Res)
  | .ret _, _, _ => []
  | .call _ _, [], _ => []
  | .call op next, fate :: fates, s =>
    match exec fate s op with
    | none => []
    | some (result, s') => ⟨op, result, s'⟩ :: (next result).history exec fates s'

/-- The run fares as allowed, returns, and has performed the operation on its way. -/
structure Performs (exec : Exec σ Fate Op Res) (allowed : Fate → σ → Op → Prop)
    (p : Prog Op Res α) (fates : List Fate) (s : σ) (event : Event σ Op Res) (value : α)
    (s' : σ) : Prop where
  fares : p.Fares exec allowed fates s
  ran : p.run exec fates s = (.returned value, s')
  performed : event ∈ p.history exec fates s

section Performs

variable {exec : Exec σ Fate Op Res} {allowed : Fate → σ → Op → Prop} {fates : List Fate}
  {s s' : σ} {event : Event σ Op Res}

variable {p : Prog Op Res α} {quiet : Op → Prop} {f : α → Prog Op Res β}

theorem history_only (only : p.Only quiet) (performed : event ∈ p.history exec fates s) :
    quiet event.op := by
  induction p generalizing fates s with
  | ret value => cases performed
  | call op next ih =>
    cases fates with
    | nil => cases performed
    | cons fate fates =>
      simp only [history] at performed
      cases executed : exec fate s op with
      | none => simp [executed] at performed
      | some done =>
        rw [executed] at performed
        rcases List.mem_cons.mp performed with rfl | later
        · exact only.1
        · exact ih done.1 (only.2 done.1) later

/-- A run of two programs in sequence is a run of the first and then one of the second. -/
theorem run_split {value : β} (fares : (p >>= f).Fares exec allowed fates s)
    (ran : (p >>= f).run exec fates s = (.returned value, s')) :
    ∃ early late a mid, p.Fares exec allowed early s ∧ p.run exec early s = (.returned a, mid) ∧
      (f a).Fares exec allowed late mid ∧ (f a).run exec late mid = (.returned value, s') ∧
      (p >>= f).history exec fates s = p.history exec early s ++ (f a).history exec late mid := by
  induction p generalizing fates s with
  | ret a => exact ⟨[], fates, a, s, trivial, rfl, fares, ran, rfl⟩
  | call op next ih =>
    have issued : Prog.call op next >>= f = .call op fun result => next result >>= f := rfl
    rw [issued] at fares ran ⊢
    cases fates with
    | nil => cases ran
    | cons fate fates =>
      simp only [run] at ran
      cases executed : exec fate s op with
      | none => simp [executed] at ran
      | some done =>
        obtain ⟨result, s₁⟩ := done
        rw [executed] at ran
        obtain ⟨early, late, a, mid, faring, first, faring', second, joined⟩ :=
          ih result (fares.2 result s₁ executed) ran
        refine ⟨fate :: early, late, a, mid, ⟨fares.1, fun result' s' executed' => ?_⟩, ?_, faring',
          second, ?_⟩
        · cases executed.symm.trans executed'
          exact faring
        · simp only [run, executed, first]
        · simp only [history, executed, joined, List.cons_append]

/-- The operation is not one of the first program, so it is performed by the second one. -/
theorem Performs.bind {value : β}
    (performs : Performs exec allowed (p >>= f) fates s event value s') (only : p.Only quiet)
    (other : ¬ quiet event.op)
    (spec : wp (restrict exec allowed) (.alone (fun _ _ => True) fun _ => True) p mid s) :
    ∃ a s₁ late, mid a s₁ ∧ Performs exec allowed (f a) late s₁ event value s' := by
  obtain ⟨early, late, a, s₁, fares, first, fares', second, joined⟩ :=
    run_split performs.fares performs.ran
  have performed := performs.performed
  rw [joined, List.mem_append] at performed
  refine ⟨a, s₁, late, run_returned spec fares first, fares', second, ?_⟩
  exact performed.resolve_left fun early => other (history_only only early)

/-- The operation is the next one, or it is performed later. -/
theorem Performs.ask {op : Op} {next : Res op → Prog Op Res α}
    (performs : Performs exec allowed (Prog.ask op >>= next) fates s event value s') :
    ∃ fate result s₁ late, exec fate s op = some (result, s₁) ∧
      (next result).Fares exec allowed late s₁ ∧
      (next result).run exec late s₁ = (.returned value, s') ∧
      (event = ⟨op, result, s₁⟩ ∨ event ∈ (next result).history exec late s₁) := by
  obtain ⟨fares, ran, performed⟩ := performs
  have issued : Prog.ask op >>= next = .call op next := rfl
  rw [issued] at fares ran performed
  cases fates with
  | nil => cases ran
  | cons fate fates =>
    simp only [run] at ran
    simp only [history] at performed
    cases executed : exec fate s op with
    | none => simp [executed] at ran
    | some done =>
      obtain ⟨result, s₁⟩ := done
      rw [executed] at ran performed
      exact ⟨fate, result, s₁, fates, executed, fares.2 result s₁ executed, ran,
        List.mem_cons.mp performed⟩

theorem Performs.not_ret {value' : α}
    (performs : Performs exec allowed (pure value' : Prog Op Res α) fates s event value s') :
    False := by
  cases performs.performed

end Performs

end TrojanGo.Lib.Prog
