import TrojanGo.Lib.Streams

/-!
# Copying, and parsers on readers that change

Copying passes on what a reader returns until it returns an error. The second part compares what a
parser does on two readers that return the same for a while.
-/
namespace TrojanGo.Lib

open List

namespace Read

variable {α ρ : Type}

/-- `io.Copy` with a buffer of the given size: what arrives at the other end. There is no result
while the copying goes on. -/
def copy (read : Read ρ α) (size : Nat) : (fuel : Nat) → ρ → Option (List α)
  | 0, _ => none
  | fuel + 1, r =>
    match read r size with
    -- the bytes are written before the error is looked at
    | ((bytes, some _), _) => some bytes
    | ((bytes, none), r') => (copy read size fuel r').map (bytes ++ ·)

/-- A read returns no more than it was asked for. -/
def Bounded (read : Read ρ α) : Prop := ∀ r n, (read r n).1.1.length ≤ n

variable {read : Read ρ α} {content : ρ → List α} {serves : Nat → ρ → Prop}

section Copy

variable {size fuel : Nat} {r r' : ρ} {bytes copied : List α}

theorem copy_error {error : ReadError} (step : read r size = ((bytes, some error), r')) :
    read.copy size (fuel + 1) r = some bytes := by
  simp only [copy, step]

theorem copy_step (step : read r size = ((bytes, none), r')) :
    read.copy size (fuel + 1) r = (read.copy size fuel r').map (bytes ++ ·) := by
  simp only [copy, step]

/-- More fuel does not change a result. -/
theorem copy_more (done : read.copy size fuel r = some copied) (more : Nat) :
    read.copy size (fuel + more) r = some copied := by
  induction fuel generalizing r copied with
  | zero => cases done
  | succ fuel ih =>
    rw [Nat.add_right_comm]
    rcases step : read r size with ⟨⟨bytes, _ | error⟩, r'⟩
    · rw [copy_step step, Option.map_eq_some_iff] at done
      obtain ⟨rest, done, rfl⟩ := done
      rw [copy_step step, ih done, Option.map_some]
    · rw [copy_error step] at done ⊢
      exact done

theorem copy_unique {fuel' : Nat} {copied' : List α} (done : read.copy size fuel r = some copied)
    (done' : read.copy size fuel' r = some copied') : copied = copied' := by
  have first := copy_more done fuel'
  rw [Nat.add_comm, copy_more done' fuel] at first
  exact (Option.some.inj first).symm

/-- Whatever the errors are, what was copied is a beginning of the content. -/
theorem Faithful.copy (faithful : read.Faithful content)
    (done : read.copy size fuel r = some copied) : ∃ rest, content r = copied ++ rest := by
  induction fuel generalizing r copied with
  | zero => cases done
  | succ fuel ih =>
    have split := faithful r size
    rcases step : read r size with ⟨⟨bytes, _ | error⟩, r'⟩
    · rw [copy_step step, Option.map_eq_some_iff] at done
      obtain ⟨later, done, rfl⟩ := done
      obtain ⟨rest, next⟩ := ih done
      rw [step, next] at split
      exact ⟨rest, by rw [split, append_assoc]⟩
    · rw [copy_error step] at done
      cases done
      rw [step] at split
      exact ⟨content r', split⟩

/-- A lawful reader is copied to its end. -/
theorem copy_lawful (lawful : read.Lawful content serves) (positive : 0 < size)
    (ready : ∀ k, serves k r) (enough : (content r).length < fuel) :
    read.copy size fuel r = some (content r) := by
  induction fuel generalizing r with
  | zero => omega
  | succ fuel ih =>
    by_cases nothing : content r = []
    · obtain ⟨ran, -, -⟩ := lawful.ends 0 r size (ready 0) positive nothing
      rw [nothing]
      exact copy_error (Prod.ext ran rfl)
    · obtain ⟨bytes, ran, filled, -, split, ready'⟩ := lawful.endless ready positive nothing
      have shorter : (content (read r size).2).length < fuel := by
        have := length_pos_of_ne_nil filled
        rw [split, length_append] at enough
        omega
      rw [copy_step (Prod.ext ran rfl), ih ready' shorter, Option.map_some, ← split]

end Copy

/-! ### Filling a request -/

section Full

variable {fuel n : Nat} {r r' : ρ} {bytes : List α} {err : Option ReadError}

theorem full_next (step : read r (n + 1) = ((bytes, err), r')) :
    read.full (fuel + 1) r (n + 1) =
      if n + 1 ≤ bytes.length then (.ok bytes, r')
      else
        match err with
        | some e => (.error e, r')
        | none => ((read.full fuel r' (n + 1 - bytes.length)).1.map (bytes ++ ·),
            (read.full fuel r' (n + 1 - bytes.length)).2) := by
  simp only [full, step]
  split
  · rfl
  · cases err with
    | some e => rfl
    | none => rcases read.full fuel r' (n + 1 - bytes.length) with ⟨_ | _, r''⟩ <;> rfl

/-- After its first read the request is filled or given up, or the rest of it is read. -/
theorem full_next_state (step : read r (n + 1) = ((bytes, err), r')) :
    (read.full (fuel + 1) r (n + 1)).2 = r' ∨
      (read.full (fuel + 1) r (n + 1)).2 = (read.full fuel r' (n + 1 - bytes.length)).2 := by
  rw [full_next step]
  split
  · exact .inl rfl
  · cases err with
    | some e => exact .inl rfl
    | none => exact .inr rfl

theorem full_keeps {inv : ρ → Prop} (keeps : ∀ r n, inv r → inv (read r n).2) (holds : inv r) :
    inv (read.full fuel r n).2 := by
  induction fuel generalizing r n with
  | zero => cases n <;> exact holds
  | succ fuel ih =>
    cases n with
    | zero => exact holds
    | succ n =>
      have next := keeps r (n + 1) holds
      rcases step : read r (n + 1) with ⟨⟨bytes, err⟩, r'⟩
      rw [step] at next
      rcases full_next_state step with last | rest
      · rw [last]
        exact next
      · rw [rest]
        exact ih next

/-- What any read keeps holds after the request if it holds after its first read. -/
theorem full_after {inv : ρ → Prop} (step : read r (n + 1) = ((bytes, err), r'))
    (keeps : ∀ r n, inv r → inv (read r n).2) (holds : inv r') :
    inv (read.full (fuel + 1) r (n + 1)).2 := by
  rcases full_next_state step with last | rest
  · rw [last]
    exact holds
  · rw [rest]
    exact full_keeps keeps holds

/-- Filling a request takes no more than the request. -/
theorem full_left (faithful : read.Faithful content) (bounded : read.Bounded) :
    (content r).length ≤ n + (content (read.full fuel r n).2).length := by
  induction fuel generalizing r n with
  | zero => cases n <;> simp [full]
  | succ fuel ih =>
    cases n with
    | zero => simp [full]
    | succ n =>
      have split := congrArg length (faithful r (n + 1))
      have short := bounded r (n + 1)
      rcases step : read r (n + 1) with ⟨⟨bytes, err⟩, r'⟩
      rw [step, length_append] at split
      rw [step] at short
      simp only at split short
      rcases full_next_state step with last | rest
      · rw [last]
        omega
      · have later := @ih (n + 1 - bytes.length) r'
        rw [rest]
        omega

end Full

/-! ### Two readers -/

section Agree

variable {ρ' : Type}

/-- The two readers return the same from related states, until both have reached states that
they do not leave. -/
structure Agree (read : Read ρ α) (read' : Read ρ' α) (related : ρ → ρ' → Prop)
    (lost : ρ → Prop) (lost' : ρ' → Prop) : Prop where
  step : ∀ r r' n, related r r' →
    (read r n).1 = (read' r' n).1 ∧ related (read r n).2 (read' r' n).2 ∨
      lost (read r n).2 ∧ lost' (read' r' n).2
  stays : ∀ r n, lost r → lost (read r n).2
  stays' : ∀ r' n, lost' r' → lost' (read' r' n).2

variable {read' : Read ρ' α} {related : ρ → ρ' → Prop} {lost : ρ → Prop} {lost' : ρ' → Prop}

theorem Agree.full (agree : Agree read read' related lost lost') (fuel n : Nat) {r : ρ} {r' : ρ'}
    (here : related r r') :
    (read.full fuel r n).1 = (read'.full fuel r' n).1 ∧
        related (read.full fuel r n).2 (read'.full fuel r' n).2 ∨
      lost (read.full fuel r n).2 ∧ lost' (read'.full fuel r' n).2 := by
  induction fuel generalizing r r' n with
  | zero => cases n <;> exact .inl ⟨rfl, here⟩
  | succ fuel ih =>
    cases n with
    | zero => exact .inl ⟨rfl, here⟩
    | succ n =>
      have next := agree.step r r' (n + 1) here
      rcases one : read r (n + 1) with ⟨⟨bytes, err⟩, r₁⟩
      rcases two : read' r' (n + 1) with ⟨⟨bytes', err'⟩, r₁'⟩
      rw [one, two] at next
      rcases next with ⟨same, next⟩ | ⟨gone, gone'⟩
      · cases same
        rw [full_next one, full_next two]
        split
        · exact .inl ⟨rfl, next⟩
        · grind
      · exact .inr ⟨full_after one agree.stays gone, full_after two agree.stays' gone'⟩

end Agree

end Read

/-! ### Parsers -/

namespace Parser

variable {α β γ ρ ρ' : Type}

theorem eval_keeps {read : Read ρ α} {inv : ρ → Prop} (keeps : ∀ r n, inv r → inv (read r n).2)
    (p : Parser α β) {r : ρ} (holds : inv r) : inv (p.eval (ReadOp.step read) r).2 := by
  induction p generalizing r with
  | ret value => exact holds
  | call op next ih =>
    cases op with
    | read n => exact ih _ (keeps r n holds)
    | full n => exact ih _ (Read.full_keeps keeps holds)

/-- Two readers that agree make a parser return the same, or both get lost. -/
theorem eval_agree {read : Read ρ α} {read' : Read ρ' α} {related : ρ → ρ' → Prop}
    {lost : ρ → Prop} {lost' : ρ' → Prop} (agree : read.Agree read' related lost lost')
    (p : Parser α β) {r : ρ} {r' : ρ'} (here : related r r') :
    (p.eval (ReadOp.step read) r).1 = (p.eval (ReadOp.step read') r').1 ∧
        related (p.eval (ReadOp.step read) r).2 (p.eval (ReadOp.step read') r').2 ∨
      lost (p.eval (ReadOp.step read) r).2 ∧ lost' (p.eval (ReadOp.step read') r').2 := by
  induction p generalizing r r' with
  | ret value => exact .inl ⟨rfl, here⟩
  | call op next ih =>
    have first : (ReadOp.step read r op).1 = (ReadOp.step read' r' op).1 ∧
        related (ReadOp.step read r op).2 (ReadOp.step read' r' op).2 ∨
        lost (ReadOp.step read r op).2 ∧ lost' (ReadOp.step read' r' op).2 := by
      cases op with
      | read n => exact agree.step r r' n here
      | full n => exact agree.full n n here
    simp only [Prog.eval]
    rcases first with ⟨same, next'⟩ | ⟨gone, gone'⟩
    · rw [same]
      exact ih _ next'
    · exact .inr ⟨eval_keeps agree.stays _ gone, eval_keeps agree.stays' _ gone'⟩

end Parser

def ReadOp.size : ReadOp → Nat
  | .read n | .full n => n

namespace Parser

variable {α β γ ρ : Type}

/-- The requests of the parser sum up to at most this number, whatever it reads. -/
def Within : Parser α β → Nat → Prop
  | .ret _, _ => True
  | .call op next, k => op.size ≤ k ∧ ∀ result, Within (next result) (k - op.size)

variable {k : Nat} {p : Parser α β}

theorem within_ask {op : ReadOp} {next : ReadOp.Res α op → Parser α β} (small : op.size ≤ k)
    (rest : ∀ result, Within (next result) (k - op.size)) :
    Within (Prog.ask op >>= next) k :=
  ⟨small, rest⟩

theorem Within.mono {j : Nat} (within : p.Within j) (more : j ≤ k) :
    p.Within k := by
  induction p generalizing j k with
  | ret value => trivial
  | call op next ih =>
    exact ⟨within.1.trans more, fun result => ih result (within.2 result) (by omega)⟩

theorem within_bind {f : β → Parser α γ} {j : Nat} (first : Within p j)
    (second : ∀ value, Within (f value) k) : Within (p >>= f) (j + k) := by
  induction p generalizing j with
  | ret value => exact (second value).mono (Nat.le_add_left k j)
  | call op next ih =>
    obtain ⟨small, rest⟩ := first
    refine ⟨small.trans (Nat.le_add_right j k), fun result => ?_⟩
    rw [Nat.sub_add_comm small]
    exact ih result (rest result)

theorem Within.left {read : Read ρ α} {content : ρ → List α} (faithful : read.Faithful content)
    (bounded : read.Bounded) (within : p.Within k) (r : ρ) :
    (content r).length ≤ k + (content (p.eval (ReadOp.step read) r).2).length := by
  induction p generalizing k r with
  | ret value => exact Nat.le_add_left _ _
  | call op next ih =>
    obtain ⟨small, rest⟩ := within
    have first : (content r).length ≤ op.size + (content (ReadOp.step read r op).2).length := by
      cases op with
      | read n =>
        rw [faithful r n, length_append]
        exact Nat.add_le_add_right (bounded r n) _
      | full n => exact Read.full_left faithful bounded
    have later := ih _ (rest (ReadOp.step read r op).1) (ReadOp.step read r op).2
    simp only [Prog.eval]
    omega

end Parser

/-! ### Segments -/

namespace Segments

variable {α : Type}

theorem faithful : Read.Faithful read (content (α := α)) := by
  rintro ⟨pieces, filled⟩ n
  cases pieces with
  | nil => rfl
  | cons piece pieces =>
    by_cases rest : piece.drop n = []
    · simp [read, rest, content]
    · simp only [read, rest, dif_neg, not_false_iff, content, flatten_cons]
      rw [← append_assoc, take_append_drop]

theorem bounded : Read.Bounded (read (α := α)) := by
  rintro ⟨pieces, filled⟩ n
  cases pieces with
  | nil => exact Nat.zero_le n
  | cons piece pieces =>
    by_cases rest : piece.drop n = []
    · have short : piece.length ≤ n := drop_eq_nil_iff.mp rest
      simpa [read, rest] using short
    · simpa only [read, rest, dif_neg, not_false_iff] using length_take_le n piece

end Segments

end TrojanGo.Lib
