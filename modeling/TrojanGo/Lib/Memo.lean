import TrojanGo.Lib.Table

/-!
# Remembered results

What a lookup finds is stored under its key; failures are not stored. Nothing is noticed of the
table exactly if lookups with one key find the same.
-/
namespace TrojanGo.Lib

/-- A kind of lookup: the key of a lookup, its result without a table, and what of the result is
stored. -/
structure Memo (α κ ε ρ : Type) where
  key : α → κ
  fetch : α → ρ
  /-- the result for something stored -/
  hit : ε → ρ
  stored : ρ → Option ε
  stored_iff : ∀ result e, stored result = some e ↔ result = hit e

namespace Memo

variable {α κ ε ρ : Type} [DecidableEq κ] (m : Memo α κ ε ρ) {t : Table κ ε} {a : α} {as : List α}

def get (t : Table κ ε) (a : α) : ρ × Table κ ε :=
  match t.lookup (m.key a) with
  | some e => (m.hit e, t)
  | none =>
    match m.stored (m.fetch a) with
    | some e => (m.fetch a, t.insert (m.key a) e)
    | none => (m.fetch a, t)

/-- One lookup after the other. -/
def gets : Table κ ε → List α → List ρ
  | _, [] => []
  | t, a :: as => (m.get t a).1 :: gets (m.get t a).2 as

/-- The table has nothing for a lookup but what it finds. -/
def Agrees (t : Table κ ε) (a : α) : Prop := ∀ e, t.lookup (m.key a) = some e → m.fetch a = m.hit e

theorem get_eq_fetch_iff : (m.get t a).1 = m.fetch a ↔ m.Agrees t a := by
  unfold get Agrees
  cases t.lookup (m.key a) with
  | some e => simp [eq_comm]
  | none => cases m.stored (m.fetch a) <;> simp

theorem lookup_get (k : κ) :
    (m.get t a).2.lookup k =
      if k = m.key a then (t.lookup k).or (m.stored (m.fetch a)) else t.lookup k := by
  unfold get
  split
  next e found =>
    split
    next same => rw [same, found, Option.some_or]
    · rfl
  next missing =>
    split
    next e found =>
      rw [Table.lookup_insert, found]
      split
      next same => rw [same, missing, Option.none_or]
      · rfl
    next failed =>
      split
      · rw [failed, Option.or_none]
      · rfl

/-- Two lookups with one key find the same, if the first finds something. -/
def Consistent (a b : α) : Prop :=
  m.key a = m.key b → ∀ e, m.fetch a = m.hit e → m.fetch b = m.hit e

theorem gets_eq_map_iff :
    m.gets t as = as.map m.fetch ↔ (∀ a ∈ as, m.Agrees t a) ∧ as.Pairwise m.Consistent := by
  induction as generalizing t with
  | nil => simp [gets]
  | cons a as ih =>
    rw [gets, List.map_cons, List.cons.injEq, ih, get_eq_fetch_iff, List.forall_mem_cons,
      List.pairwise_cons]
    constructor
    · rintro ⟨here, later, pairwise⟩
      refine ⟨⟨here, fun b mem e found => ?_⟩, fun b mem same e finds => ?_, pairwise⟩
      · -- nothing that the table has is replaced
        refine later b mem e ?_
        rw [lookup_get, found]
        split <;> rfl
      · refine later b mem e ?_
        rw [lookup_get, if_pos same.symm, ← same, (m.stored_iff _ _).mpr finds]
        cases found : t.lookup (m.key a) with
        | none => rfl
        | some e' =>
          have both := here e' found
          rw [finds, ← m.stored_iff, (m.stored_iff _ _).mpr rfl] at both
          rw [Option.some_or, Option.some.inj both]
    · rintro ⟨⟨here, later⟩, first, pairwise⟩
      refine ⟨here, fun b mem e found => ?_, pairwise⟩
      rw [lookup_get] at found
      split at found
      next same =>
        rcases Option.or_eq_some_iff.mp found with old | ⟨-, new⟩
        · exact later b mem e old
        · exact first b mem same.symm e ((m.stored_iff _ _).mp new)
      · exact later b mem e found

/-- Starting with an empty table. -/
theorem gets_empty_iff :
    m.gets ⟨[], List.nodup_nil⟩ as = as.map m.fetch ↔ as.Pairwise m.Consistent := by
  rw [gets_eq_map_iff]
  exact and_iff_right fun a _ e found => by cases found

end Memo

end TrojanGo.Lib
