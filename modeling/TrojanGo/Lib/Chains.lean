import Mathlib.Data.Finset.Card
import Mathlib.Logic.Relation

/-!
# Chains

A partial function is followed from an element until it has no value. Where it has values on
finitely many elements only, the chain ends unless it comes back to an element it has passed.
-/
namespace TrojanGo.Lib.Chains

variable {α : Type} (f : α → Option α)

/-- The element after so many steps. -/
def chain : Nat → α → Option α
  | 0, a => some a
  | n + 1, a => (f a).bind (chain n)

/-- One step. -/
def Leads (a b : α) : Prop := f a = some b

variable {f}

theorem chain_add (m n : Nat) (a : α) :
    chain f (m + n) a = (chain f m a).bind (chain f n) := by
  induction m generalizing a with
  | zero => rw [Nat.zero_add, chain, Option.bind_some]
  | succ m ih =>
    rw [Nat.succ_add, chain, chain, Option.bind_assoc]
    exact congrArg _ (funext ih)

theorem chain_one (a : α) : chain f 1 a = f a := by simp [chain]

variable {a : α} {n : Nat}

theorem chain_some_of_le {m : Nat} {b : α} (fits : m ≤ n) (reached : chain f n a = some b) :
    ∃ c, chain f m a = some c ∧ chain f (n - m) c = some b := by
  rw [← Nat.add_sub_cancel' fits, chain_add] at reached
  obtain ⟨c, first, second⟩ := Option.bind_eq_some_iff.mp reached
  exact ⟨c, first, second⟩

theorem reaches_iff {b : α} :
    Relation.ReflTransGen (Leads f) a b ↔ ∃ n, chain f n a = some b := by
  constructor
  · intro reached
    induction reached with
    | refl => exact ⟨0, rfl⟩
    | tail _ step ih =>
      obtain ⟨n, there⟩ := ih
      exact ⟨n + 1, by rw [chain_add, there, Option.bind_some, chain_one, step]⟩
  · rintro ⟨n, there⟩
    induction n generalizing a with
    | zero =>
      cases there
      exact .refl
    | succ n ih =>
      obtain ⟨c, step, rest⟩ := Option.bind_eq_some_iff.mp there
      exact .head step (ih rest)

theorem reaches_later_iff {b : α} :
    Relation.TransGen (Leads f) a b ↔ ∃ n, chain f (n + 1) a = some b := by
  rw [Relation.TransGen.head'_iff]
  simp only [reaches_iff, chain, Option.bind_eq_some_iff]
  constructor
  · rintro ⟨c, step, n, rest⟩
    exact ⟨n, c, step, rest⟩
  · rintro ⟨n, c, step, rest⟩
    exact ⟨c, step, n, rest⟩

/-- A chain that ends has a last element. -/
theorem exists_last (ends : chain f n a = none) :
    ∃ m b, chain f m a = some b ∧ f b = none := by
  induction n generalizing a with
  | zero => cases ends
  | succ n ih =>
    cases step : f a with
    | none => exact ⟨0, a, rfl, step⟩
    | some b =>
      rw [chain, step, Option.bind_some] at ends
      obtain ⟨m, last, reached, none⟩ := ih ends
      exact ⟨m + 1, last, by rw [chain, step, Option.bind_some, reached], none⟩

/-- A chain that comes back to an element goes round for ever. -/
theorem chain_ne_none (back : chain f (n + 1) a = some a) (m : Nat) :
    ∃ b, chain f m a = some b := by
  have round : ∀ k, chain f (k * (n + 1)) a = some a := by
    intro k
    induction k with
    | zero => rw [Nat.zero_mul, chain]
    | succ k ih => rw [Nat.succ_mul, chain_add, ih, Option.bind_some, back]
  obtain ⟨b, there, -⟩ := chain_some_of_le (Nat.le_mul_of_pos_right m n.succ_pos) (round m)
  exact ⟨b, there⟩

/-- No element that is reached is reached from itself. -/
def Acyclic (f : α → Option α) (a : α) : Prop :=
  ∀ b, Relation.ReflTransGen (Leads f) a b → ¬ Relation.TransGen (Leads f) b b

theorem acyclic_of_ends (ends : chain f n a = none) : Acyclic f a := by
  intro b reached back
  obtain ⟨k, there⟩ := reaches_iff.mp reached
  obtain ⟨m, back⟩ := reaches_later_iff.mp back
  obtain ⟨c, later⟩ := chain_ne_none back n
  have whole : chain f (k + n) a = some c := by rw [chain_add, there, Option.bind_some, later]
  obtain ⟨d, earlier, -⟩ := chain_some_of_le (Nat.le_add_left n k) whole
  rw [ends] at earlier
  cases earlier

section Finite

variable {s : Finset α} (inside : ∀ a b, f a = some b → a ∈ s)
include inside

/-- A chain without a cycle is not longer than there are elements to pass. -/
theorem ends_of_acyclic {a : α} (acyclic : Acyclic f a) : chain f (s.card + 1) a = none := by
  by_contra goes
  obtain ⟨last, reached⟩ := Option.ne_none_iff_exists'.mp goes
  -- the elements that are passed, each of which has a next one
  have passed : ∀ i, i ≤ s.card → ∃ b, chain f i a = some b ∧ b ∈ s := by
    intro i fits
    obtain ⟨b, there, rest⟩ := chain_some_of_le (Nat.le_succ_of_le fits) reached
    rw [Nat.succ_sub fits, chain] at rest
    obtain ⟨c, step, -⟩ := Option.bind_eq_some_iff.mp rest
    exact ⟨b, there, inside b c step⟩
  have repeated : ∀ i j, i < j → j ≤ s.card → chain f i a ≠ chain f j a := by
    intro i j before fits same
    obtain ⟨b, there, -⟩ := passed i (by omega)
    refine acyclic b (reaches_iff.mpr ⟨i, there⟩) (reaches_later_iff.mpr ⟨j - i - 1, ?_⟩)
    have split : chain f (i + (j - i - 1 + 1)) a = some b := by
      rw [show i + (j - i - 1 + 1) = j by omega, ← same, there]
    rwa [chain_add, there, Option.bind_some] at split
  obtain ⟨i, first, j, second, differ, same⟩ :=
    Finset.exists_ne_map_eq_of_card_lt_of_maps_to
      (s := Finset.range (s.card + 1)) (t := s.map ⟨some, Option.some_injective α⟩)
      (f := fun i => chain f i a) (by simp) (by
        intro i mem
        obtain ⟨b, there, isIn⟩ := passed i (by simpa [Nat.lt_succ_iff] using mem)
        simp [there, isIn])
  simp only [Finset.mem_range, Nat.lt_succ_iff] at first second
  rcases Nat.lt_or_gt_of_ne differ with before | before
  · exact repeated i j before second same
  · exact repeated j i before first same.symm

/-- The last element is not further away than there are elements to pass. -/
theorem length_le_card {a b : α} {n : Nat} (reached : chain f n a = some b) (last : f b = none) :
    n ≤ s.card := by
  have ends : chain f (n + 1) a = none := by
    rw [chain_add, reached, Option.bind_some, chain_one, last]
  have bounded := ends_of_acyclic inside (acyclic_of_ends ends)
  by_contra long
  obtain ⟨c, there, -⟩ := chain_some_of_le (Nat.not_le.mp long) reached
  rw [bounded] at there
  cases there

theorem ends_iff {a : α} : (∃ n, chain f n a = none) ↔ Acyclic f a :=
  ⟨fun ⟨_, ends⟩ => acyclic_of_ends ends, fun acyclic => ⟨_, ends_of_acyclic inside acyclic⟩⟩

end Finite

end TrojanGo.Lib.Chains
