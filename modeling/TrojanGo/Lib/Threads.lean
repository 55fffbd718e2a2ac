import TrojanGo.Lib.Prog
import Mathlib.Logic.Function.Basic

/-!
# Threads over a shared state

A machine runs one program per thread over a shared state; a scheduler chooses who goes on, and
when the whole process crashes. An assertion kept by every operation holds along every run, and a
rely-guarantee protocol between the threads is sound.
-/
namespace TrojanGo.Lib

open Function

/-- A thread is between two calls, holding its memory, or inside one. -/
inductive Thread (Op : Type) (Res : Op → Type) (Mem : Type) : Type where
  | idle (memory : Mem)
  | running (rest : Prog Op Res Mem)

/-- The memory of a thread that is between two calls. -/
def Thread.memory {Op : Type} {Res : Op → Type} {Mem : Type} : Thread Op Res Mem → Option Mem
  | .idle memory => some memory
  | .running _ => none

/-- What the scheduler does next. -/
inductive Label (ι : Type) (Call : ι → Type) (Fate : Type) : Type where
  | enter (thread : ι) (call : Call thread)
  | step (thread : ι) (fate : Fate)
  | leave (thread : ι)
  | crash

/-- The thread that is scheduled. -/
def Label.thread {ι Fate : Type} {Call : ι → Type} : Label ι Call Fate → Option ι
  | .enter i _ => some i
  | .step i _ => some i
  | .leave i => some i
  | .crash => none

structure Machine (ι σ Fate : Type) (Call Mem : ι → Type) (Op : Type) (Res : Op → Type) where
  exec : Prog.Exec σ Fate Op Res
  /-- the program behind a call; a thread that cannot make the call has none -/
  body : (i : ι) → Call i → Mem i → Option (Prog Op Res (Mem i))
  /-- what a crash leaves; `none` where crashes are not part of the machine -/
  reboot : σ → Option σ
  /-- a thread's memory right after the process started -/
  memory : σ → (i : ι) → Mem i

namespace Machine

variable {ι σ Fate Op : Type} {Call Mem : ι → Type} {Res : Op → Type} [DecidableEq ι]

structure Config (σ Op : Type) (Res : Op → Type) (Mem : ι → Type) where
  shared : σ
  threads : (i : ι) → Thread Op Res (Mem i)

variable (M : Machine ι σ Fate Call Mem Op Res)

/-- A freshly started process. -/
def boot (s : σ) : Config σ Op Res Mem := ⟨s, fun i => .idle (M.memory s i)⟩

def next (c : Config σ Op Res Mem) : Label ι Call Fate → Option (Config σ Op Res Mem)
  | .enter i call =>
    match c.threads i with
    | .idle memory => (M.body i call memory).map fun p =>
        ⟨c.shared, update c.threads i (.running p)⟩
    | .running _ => none
  | .step i fate =>
    match c.threads i with
    | .running (.call op rest) => (M.exec fate c.shared op).map fun done =>
        ⟨done.2, update c.threads i (.running (rest done.1))⟩
    | _ => none
  | .leave i =>
    match c.threads i with
    | .running (.ret memory) => some ⟨c.shared, update c.threads i (.idle memory)⟩
    | _ => none
  | .crash => (M.reboot c.shared).map M.boot

def run (c : Config σ Op Res Mem) : List (Label ι Call Fate) → Option (Config σ Op Res Mem)
  | [] => some c
  | label :: labels => (M.next c label).bind fun c' => run c' labels

/-- The operation a label performs, if it performs one, is one that `admits` allows. -/
def Admitted (admits : σ → Op → Prop) (c : Config σ Op Res Mem) : Label ι Call Fate → Prop
  | .step i _ =>
    match c.threads i with
    | .running (.call op _) => admits c.shared op
    | _ => True
  | _ => True

def RunMeets (admits : σ → Op → Prop) (c : Config σ Op Res Mem) :
    List (Label ι Call Fate) → Prop
  | [] => True
  | label :: labels =>
    Admitted admits c label ∧ ∀ c', M.next c label = some c' → RunMeets admits c' labels

/-- What a scheduler of the machine does. -/
abbrev Labels (_ : Machine ι σ Fate Call Mem Op Res) := List (Label ι Call Fate)

abbrev State (_ : Machine ι σ Fate Call Mem Op Res) := Config σ Op Res Mem

/-- A run of a fresh process. -/
abbrev runFrom (s : σ) (labels : List (Label ι Call Fate)) : Option (Config σ Op Res Mem) :=
  M.run (M.boot s) labels

abbrev MeetsFrom (admits : σ → Op → Prop) (s : σ) (labels : List (Label ι Call Fate)) : Prop :=
  M.RunMeets admits (M.boot s) labels

/-! Whether a given run meets a decidable condition can be evaluated. -/

instance (admits : σ → Op → Prop) [∀ s op, Decidable (admits s op)] (c : Config σ Op Res Mem) :
    (label : Label ι Call Fate) → Decidable (Admitted admits c label)
  | .enter _ _ | .leave _ | .crash => .isTrue trivial
  | .step i _ =>
    match held : c.threads i with
    | .running (.call op _) =>
      decidable_of_iff (admits c.shared op) (by simp only [Admitted, held])
    | .running (.ret _) | .idle _ => .isTrue (by simp only [Admitted, held])

def decideRunMeets (admits : σ → Op → Prop) [∀ s op, Decidable (admits s op)]
    (c : Config σ Op Res Mem) :
    (labels : List (Label ι Call Fate)) → Decidable (M.RunMeets admits c labels)
  | [] => .isTrue trivial
  | label :: labels =>
    match stepped : M.next c label with
    | none => decidable_of_iff (Admitted admits c label) (by simp [RunMeets, stepped])
    | some c' =>
      have := decideRunMeets admits c' labels
      decidable_of_iff (Admitted admits c label ∧ M.RunMeets admits c' labels)
        (by simp [RunMeets, stepped])

instance (admits : σ → Op → Prop) [∀ s op, Decidable (admits s op)] (c : Config σ Op Res Mem)
    (labels : List (Label ι Call Fate)) : Decidable (M.RunMeets admits c labels) :=
  M.decideRunMeets admits c labels

variable {M}

variable {c : Config σ Op Res Mem} {label : Label ι Call Fate} {labels : List (Label ι Call Fate)}

theorem run_cons {c'' : Config σ Op Res Mem} (ran : M.run c (label :: labels) = some c'') :
    ∃ c', M.next c label = some c' ∧ M.run c' labels = some c'' :=
  Option.bind_eq_some_iff.mp ran

variable {p q : Config σ Op Res Mem → Prop}

/-- A run that evaluates to a state passing a check. -/
theorem run_checked [DecidablePred p]
    (checked : (M.run c labels).any (fun c' => decide (p c')) = true) :
    ∃ c', M.run c labels = some c' ∧ p c' := by
  cases ran : M.run c labels with
  | none => simp [ran] at checked
  | some c' => exact ⟨c', rfl, by simpa [ran] using checked⟩

/-- What else is known of such a run. -/
theorem run_witness (p : Config σ Op Res Mem → Prop) [DecidablePred p]
    (checked : (M.run c labels).any (fun c' => decide (p c')) = true)
    (more : ∀ c', M.run c labels = some c' → p c' → q c') :
    ∃ c', M.run c labels = some c' ∧ q c' := by
  obtain ⟨c', ran, holds⟩ := run_checked checked
  exact ⟨c', ran, more c' ran holds⟩

theorem run_checked_and [DecidablePred p]
    (checked : (M.run c labels).any (fun c' => decide (p c')) = true)
    (more : ∀ c', M.run c labels = some c' → q c') : ∃ c', M.run c labels = some c' ∧ p c' ∧ q c' :=
  run_witness p checked fun c' ran holds => ⟨holds, more c' ran⟩

variable {c' : Config σ Op Res Mem}

variable (M c) in
/-- Everything a scheduling step can do. -/
inductive Next : Label ι Call Fate → Config σ Op Res Mem → Prop
  | enter {i call memory p} (held : c.threads i = .idle memory)
      (found : M.body i call memory = some p) :
      Next (.enter i call) ⟨c.shared, update c.threads i (.running p)⟩
  | step {i fate op rest result s'} (held : c.threads i = .running (.call op rest))
      (executed : M.exec fate c.shared op = some (result, s')) :
      Next (.step i fate) ⟨s', update c.threads i (.running (rest result))⟩
  | leave {i memory} (held : c.threads i = .running (.ret memory)) :
      Next (.leave i) ⟨c.shared, update c.threads i (.idle memory)⟩
  | crash {s'} (kept : M.reboot c.shared = some s') : Next .crash (M.boot s')

theorem next_cases (stepped : M.next c label = some c') : M.Next c label c' := by
  cases label with
  | enter i call =>
    simp only [next] at stepped
    split at stepped
    next memory held =>
      obtain ⟨p, found, rfl⟩ := Option.map_eq_some_iff.mp stepped
      exact .enter held found
    · cases stepped
  | step i fate =>
    simp only [next] at stepped
    split at stepped
    next op rest held =>
      obtain ⟨⟨result, s'⟩, done, rfl⟩ := Option.map_eq_some_iff.mp stepped
      exact .step held done
    · cases stepped
  | leave i =>
    simp only [next] at stepped
    split at stepped
    next memory held =>
      cases stepped
      exact .leave held
    · cases stepped
  | crash =>
    obtain ⟨s', kept, rfl⟩ := Option.map_eq_some_iff.mp stepped
    exact .crash kept

variable {admits : σ → Op → Prop}

/-- What every admitted scheduling step keeps, every admitted run keeps. -/
theorem run_induction (good : Config σ Op Res Mem → Prop)
    (keeps : ∀ c label c', good c → Admitted admits c label → M.next c label = some c' → good c')
    (start : good c) (meets : M.RunMeets admits c labels) (ran : M.run c labels = some c') :
    good c' := by
  induction labels generalizing c with
  | nil =>
    cases ran
    exact start
  | cons label labels ih =>
    obtain ⟨mid, stepped, rest⟩ := run_cons ran
    exact ih (keeps c label mid start meets.1 stepped) (meets.2 mid stepped) rest

/-- How often a run schedules a thread. -/
def turns (i : ι) (labels : List (Label ι Call Fate)) : Nat :=
  labels.countP fun label => label.thread = some i

theorem run_reaches (good goal : Config σ Op Res Mem → Prop) (distance : Config σ Op Res Mem → Nat)
    (i : ι)
    (keeps : ∀ c label c', good c → Admitted admits c label → M.next c label = some c' → good c')
    (stays : ∀ c label c', good c → Admitted admits c label → M.next c label = some c' →
      goal c → goal c')
    (others : ∀ c label c', good c → Admitted admits c label → M.next c label = some c' →
      label.thread ≠ some i → distance c' ≤ distance c)
    (own : ∀ c label c', good c → Admitted admits c label → M.next c label = some c' →
      label.thread = some i → goal c' ∨ distance c' < distance c)
    (arrived : ∀ c, good c → distance c = 0 → goal c) (start : good c)
    (meets : M.RunMeets admits c labels) (ran : M.run c labels = some c')
    (enough : distance c ≤ turns i labels) : goal c' := by
  have remain : ∀ {c : Config σ Op Res Mem} {labels : List (Label ι Call Fate)}, good c → goal c →
      M.RunMeets admits c labels → M.run c labels = some c' → goal c' := by
    intro c labels start reached meets ran
    refine (run_induction (fun c => good c ∧ goal c) ?_ ⟨start, reached⟩ meets ran).2
    rintro c label c' ⟨good, reached⟩ admitted stepped
    exact ⟨keeps c label c' good admitted stepped, stays c label c' good admitted stepped reached⟩
  -- on the run: either the goal is reached, or enough turns are left for the distance
  induction labels generalizing c with
  | nil =>
    cases ran
    exact arrived _ start (by simpa [turns] using enough)
  | cons label labels ih =>
    obtain ⟨mid, stepped, rest⟩ := run_cons ran
    have good' := keeps c label mid start meets.1 stepped
    have meets' := meets.2 mid stepped
    by_cases mine : label.thread = some i
    · have counted : turns i (label :: labels) = turns i labels + 1 := by simp [turns, mine]
      rcases own c label mid start meets.1 stepped mine with reached | nearer
      · exact remain good' reached meets' rest
      · exact ih good' meets' rest (by omega)
    · have counted : turns i (label :: labels) = turns i labels := by simp [turns, mine]
      have same := others c label mid start meets.1 stepped mine
      exact ih good' meets' rest (by omega)

theorem runMeets_of_admits (all : ∀ s op, admits s op) (c : Config σ Op Res Mem)
    (labels : List (Label ι Call Fate)) :
    M.RunMeets admits c labels := by
  induction labels generalizing c with
  | nil => trivial
  | cons label labels ih =>
    refine ⟨?_, fun c' _ => ih c'⟩
    cases label with
    | step i fate =>
      simp only [Admitted]
      split
      · exact all _ _
      · trivial
    | _ => trivial

/-- An assertion on the shared state alone, kept by every operation and every crash. -/
theorem run_invariant (inv : σ → Prop) (ops : ∀ fate s op result s', inv s → admits s op →
      M.exec fate s op = some (result, s') → inv s')
    (crash : ∀ s s', inv s → M.reboot s = some s' → inv s') (start : inv c.shared)
    (meets : M.RunMeets admits c labels) (ran : M.run c labels = some c') : inv c'.shared := by
  refine run_induction (fun c => inv c.shared) ?_ start meets ran
  intro c label c' holds admitted stepped
  cases next_cases stepped with
  | enter | leave => exact holds
  | step held done =>
    exact ops _ _ _ _ _ holds (by simpa [Admitted, held] using admitted) done
  | crash kept => exact crash _ _ holds kept

/-- The same for the operations that the programs of the machine can issue at all. -/
theorem run_invariant_only {allowed : Op → Prop}
    (bodies : ∀ i call memory p, M.body i call memory = some p → p.Only allowed) (inv : σ → Prop)
    (ops : ∀ fate s op result s', inv s → admits s op → allowed op →
      M.exec fate s op = some (result, s') → inv s')
    (crash : ∀ s s', inv s → M.reboot s = some s' → inv s') {s : σ} (start : inv s)
    (meets : M.RunMeets admits (M.boot s) labels) (ran : M.run (M.boot s) labels = some c') :
    inv c'.shared := by
  let programs : Config σ Op Res Mem → Prop := fun c =>
    ∀ i p, c.threads i = .running p → p.Only allowed
  -- what a thread that was just scheduled runs on with
  have update : ∀ (c : Config σ Op Res Mem) (s : σ) (i : ι) (t : Thread Op Res (Mem i)),
      programs c → (∀ p, t = .running p → p.Only allowed) →
      programs ⟨s, update c.threads i t⟩ := by grind
  refine (run_induction (fun c => inv c.shared ∧ programs c) ?_ ⟨start, ?_⟩ meets ran).1
  · rintro c label c' ⟨holds, only⟩ admitted stepped
    cases next_cases stepped with
    | enter held found =>
      refine ⟨holds, update c _ _ _ only ?_⟩
      rintro _ ⟨⟩
      exact bodies _ _ _ _ found
    | step held done =>
      have issued := only _ _ held
      refine ⟨ops _ _ _ _ _ holds (by simpa [Admitted, held] using admitted) issued.1 done,
        update c _ _ _ only ?_⟩
      rintro _ ⟨⟩
      exact issued.2 _
    | leave held =>
      refine ⟨holds, update c _ _ _ only ?_⟩
      rintro _ ⟨⟩
    | crash kept => exact ⟨crash _ _ holds kept, fun i p held => by cases held⟩
  · intro i p held
    cases held

/-! ### Rely-guarantee -/

/-- The terms between the threads: a common invariant, what each thread may see the
others do, what it does itself, and what it knows about its memory between calls. -/
structure Protocol (M : Machine ι σ Fate Call Mem Op Res) where
  admits : σ → Op → Prop
  inv : σ → Prop
  rely : ι → σ → σ → Prop
  guar : ι → σ → σ → Prop
  knows : (i : ι) → Mem i → σ → Prop

namespace Protocol

variable (P : Protocol M)

def contract (i : ι) : Prog.Contract σ Op :=
  ⟨P.admits, P.inv, P.rely i, P.guar i⟩

/-- The proof obligations of a protocol. -/
structure Sound : Prop where
  lawful : ∀ i, (P.contract i).Lawful
  stable : ∀ i memory s s', P.knows i memory s → P.rely i s s' → P.inv s' → P.knows i memory s'
  compatible : ∀ i j s s', i ≠ j → P.guar i s s' → P.rely j s s'
  body : ∀ i call memory p s, M.body i call memory = some p → P.knows i memory s →
    p.wp M.exec (P.contract i) (P.knows i) s
  boot : ∀ s s', P.inv s → M.reboot s = some s' →
    P.inv s' ∧ ∀ i, P.knows i (M.memory s' i) s'

/-- What holds of one thread in a given shared state. -/
def ThreadGood (s : σ) (i : ι) : Thread Op Res (Mem i) → Prop
  | .idle memory => P.knows i memory s
  | .running rest => rest.wp M.exec (P.contract i) (P.knows i) s

structure Good (c : Config σ Op Res Mem) : Prop where
  inv : P.inv c.shared
  threads : ∀ i, P.ThreadGood c.shared i (c.threads i)

variable {P : Protocol M}

omit [DecidableEq ι] in
/-- What a thread knows survives what the others do. -/
theorem ThreadGood.rely (sound : P.Sound) {s s' : σ} {i : ι} {t : Thread Op Res (Mem i)}
    (good : P.ThreadGood s i t) (related : P.rely i s s') (inv : P.inv s') :
    P.ThreadGood s' i t := by
  cases t with
  | idle memory => exact sound.stable i memory s s' good related inv
  | running rest => exact Prog.wp_rely (sound.lawful i) related good

section

variable (sound : P.Sound) (good : P.Good c)

include sound good

/-- Replacing one thread in a state the others tolerate. -/
theorem Good.update {s' : σ} {i : ι} {t : Thread Op Res (Mem i)} (inv : P.inv s')
    (own : P.ThreadGood s' i t) (others : ∀ j, i ≠ j → P.rely j c.shared s') :
    P.Good ⟨s', update c.threads i t⟩ := by
  refine ⟨inv, fun j => ?_⟩
  by_cases same : i = j
  · subst same
    simpa using own
  · simp only [update_of_ne (Ne.symm same)]
    exact (good.threads j).rely sound (others j same) inv

theorem Good.next (admitted : Admitted P.admits c label) (stepped : M.next c label = some c') :
    P.Good c' := by
  have unmoved : ∀ i j, i ≠ j → P.rely j c.shared c.shared :=
    fun _ j _ => (sound.lawful j).refl c.shared
  cases next_cases stepped with
  | @enter i call memory p held found =>
    have known := good.threads i
    rw [held] at known
    exact good.update sound good.inv (sound.body i call memory p c.shared found known) (unmoved i)
  | @step i fate op rest result s' held done =>
    have running := good.threads i
    rw [held] at running
    obtain ⟨inv, guarantee, onward⟩ := running c.shared ((sound.lawful i).refl c.shared) good.inv
      (by simpa [Admitted, held, contract] using admitted) fate result s' done
    exact good.update sound inv onward fun j other =>
      sound.compatible i j c.shared s' other guarantee
  | @leave i memory held =>
    have ended := good.threads i
    rw [held] at ended
    exact good.update sound good.inv (ended c.shared ((sound.lawful i).refl c.shared) good.inv)
      (unmoved i)
  | crash kept =>
    obtain ⟨inv, known⟩ := sound.boot _ _ good.inv kept
    exact ⟨inv, known⟩

/-- Along every admitted run the invariant holds and every idle thread knows its memory. -/
theorem Good.run (meets : M.RunMeets P.admits c labels) (ran : M.run c labels = some c') :
    P.Good c' :=
  run_induction P.Good (fun _ _ _ held admitted stepped => held.next sound admitted stepped)
    good meets ran

end

theorem Good.run_invariant (sound : P.Sound) (weaker : ∀ s op, admits s op → P.admits s op)
    (holds : σ → Prop) (ops : ∀ fate s op result s', P.inv s → holds s → admits s op →
      M.exec fate s op = some (result, s') → P.inv s' → holds s')
    (crash : ∀ s s', P.inv s → holds s → M.reboot s = some s' → holds s') (good : P.Good c)
    (start : holds c.shared) (meets : M.RunMeets admits c labels) (ran : M.run c labels = some c') :
    P.Good c' ∧ holds c'.shared := by
  refine run_induction (fun c => P.Good c ∧ holds c.shared) ?_ ⟨good, start⟩ meets ran
  rintro c label c' ⟨good, held⟩ admitted stepped
  have weak : Admitted P.admits c label := by
    cases label with
    | step i fate => grind [Admitted]
    | _ => trivial
  have good' := good.next sound weak stepped
  refine ⟨good', ?_⟩
  cases next_cases stepped with
  | enter | leave => exact held
  | step running done =>
    exact ops _ _ _ _ _ good.inv held (by simpa [Admitted, running] using admitted) done
      good'.inv
  | crash kept => exact crash _ _ good.inv held kept

end Protocol

end Machine

end TrojanGo.Lib
