import Mathlib.Data.Finmap
import Mathlib.Algebra.BigOperators.Group.Multiset.Basic
import Mathlib.Algebra.Order.Ring.Nat

/-!
# Tallies

Finite maps read as tallies: an absent key counts as zero, and the weights of the entries
of a map of batches are summed up, each key once.
-/
namespace TrojanGo.Lib

variable {ι K A B M : Type} [DecidableEq ι] [DecidableEq K]

/-- The entry of a key, zero if there is none. -/
def value [Zero A] (m : Finmap fun _ : K => A) (k : K) : A := (m.lookup k).getD 0

@[simp] theorem value_empty [Zero A] (k : K) : value (∅ : Finmap fun _ : K => A) k = 0 := by
  simp [value]

@[simp] theorem value_insert [Zero A] (m : Finmap fun _ : K => A) (k : K) (a : A) :
    value (m.insert k a) k = a := by
  simp [value]

theorem value_insert_ne [Zero A] (m : Finmap fun _ : K => A) {k k' : K} (a : A) (other : k' ≠ k) :
    value (m.insert k a) k' = value m k' := by
  simp [value, Finmap.lookup_insert_of_ne m other]

/-- Write back what an earlier lookup found. -/
def restore (m : Finmap fun _ : K => A) (k : K) : Option A → Finmap fun _ : K => A
  | some old => m.insert k old
  | none => m.erase k

theorem restore_insert (m : Finmap fun _ : K => A) (k : K) (a : A) :
    restore (m.insert k a) k (m.lookup k) = m := by
  apply Finmap.ext_lookup
  intro k'
  cases found : m.lookup k with
  | some old =>
    by_cases same : k' = k
    · subst same
      simp [restore, found]
    · simp [restore, Finmap.lookup_insert_of_ne _ same]
  | none =>
    by_cases same : k' = k
    · subst same
      simp [restore, found]
    · simp [restore, Finmap.lookup_erase_ne same, Finmap.lookup_insert_of_ne _ same]

/-- The sum of a weight over all entries. -/
def total [AddCommMonoid M] (l : Finmap fun _ : ι => B) (weight : B → M) : M :=
  (l.entries.map fun entry => weight entry.2).sum

omit [DecidableEq ι] in
@[simp] theorem total_empty [AddCommMonoid M] (weight : B → M) :
    total (∅ : Finmap fun _ : ι => B) weight = 0 := rfl

/-- Inserting an entry again changes nothing. -/
theorem insert_of_lookup {l : Finmap fun _ : ι => B} {i : ι} {b : B} (found : l.lookup i = some b) :
    l.insert i b = l := by
  apply Finmap.ext_lookup
  intro j
  by_cases same : j = i
  · subst same
    simp [found]
  · simp [Finmap.lookup_insert_of_ne _ same]

/-- A test that some entry passes. -/
theorem any_eq_true (m : Finmap fun _ : K => A) (test : K → A → Bool) :
    m.any test = true ↔ ∃ k a, m.lookup k = some a ∧ test k a = true := by
  have folded : ∀ (entries : List (Σ _ : K, A)) (found : Bool),
      entries.foldl (fun found entry => found || test entry.1 entry.2) found =
        (found || entries.any fun entry => test entry.1 entry.2) := by
    intro entries
    induction entries with
    | nil => simp
    | cons entry entries ih => simp [ih, Bool.or_assoc]
  induction m using Finmap.induction_on with
  | _ l =>
    have listed : Finmap.any test l.toFinmap = l.entries.any fun entry => test entry.1 entry.2 :=
      (folded l.entries false).trans (Bool.false_or _)
    rw [listed, List.any_eq_true]
    constructor
    · rintro ⟨⟨k, a⟩, mem, passes⟩
      exact ⟨k, a, Finmap.mem_lookup_iff.mpr mem, passes⟩
    · rintro ⟨k, a, found, passes⟩
      exact ⟨⟨k, a⟩, Finmap.mem_lookup_iff.mp found, passes⟩

/-- A part of a tally weighs at most as much as the whole. -/
theorem total_le_of_subset {l l' : Finmap fun _ : ι => B} (weight : B → Nat)
    (part : ∀ i b, l.lookup i = some b → l'.lookup i = some b) :
    total l weight ≤ total l' weight := by
  have inside : l.entries ≤ l'.entries := by
    refine (Multiset.le_iff_subset l.nodupKeys.nodup).mpr ?_
    rintro ⟨i, b⟩ mem
    exact Finmap.mem_lookup_iff.mp (part i b (Finmap.mem_lookup_iff.mpr mem))
  obtain ⟨rest, equal⟩ := Multiset.le_iff_exists_add.mp inside
  simp only [total, equal, Multiset.map_add, Multiset.sum_add]
  exact Nat.le_add_right _ _

/-! ### Sums over lists -/

/-- Replacing one element moves the sum by the difference of the two weights. -/
theorem sum_map_set (l : List B) (weight : B → Nat) {i : Nat} {old : B} (new : B)
    (found : l[i]? = some old) :
    ((l.set i new).map weight).sum + weight old = (l.map weight).sum + weight new := by
  induction l generalizing i with
  | nil => simp at found
  | cons first rest ih =>
    cases i with
    | zero => grind
    | succ i => grind

end TrojanGo.Lib
