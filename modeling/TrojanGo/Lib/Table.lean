import Mathlib.Data.List.Nodup

/-!
# Finite tables

A finite map as a list of entries with distinct keys, which can be counted and filtered by value.
-/
namespace TrojanGo.Lib

open List

/-- An entry is what a search for its key finds, if keys are distinct. -/
theorem find?_key {α κ : Type} [DecidableEq κ] {key : α → κ} {entries : List α}
    (keys : (entries.map key).Nodup) {entry : α} (mem : entry ∈ entries) :
    entries.find? (fun other => key other = key entry) = some entry := by
  cases found : entries.find? fun other => key other = key entry with
  | none =>
    have absent := find?_eq_none.mp found entry mem
    simp at absent
  | some other =>
    have same : key other = key entry := by simpa using find?_some found
    rw [inj_on_of_nodup_map keys (mem_of_find?_eq_some found) mem same]

theorem no_keys {κ ν : Type} : (([] : List (κ × ν)).map Prod.fst).Nodup := nodup_nil

structure Table (κ ν : Type) where
  entries : List (κ × ν) := []
  keys : (entries.map Prod.fst).Nodup := by first | exact TrojanGo.Lib.no_keys | decide

namespace Table

variable {κ ν : Type} [DecidableEq κ]

def size (t : Table κ ν) : Nat := t.entries.length

def lookup (t : Table κ ν) (key : κ) : Option ν :=
  (t.entries.find? fun entry => entry.1 = key).map Prod.snd

omit [DecidableEq κ] in
def filter (t : Table κ ν) (keep : κ × ν → Bool) : Table κ ν where
  entries := t.entries.filter keep
  keys := t.keys.sublist (List.filter_sublist.map _)

def erase (t : Table κ ν) (key : κ) : Table κ ν := t.filter fun entry => entry.1 ≠ key

def insert (t : Table κ ν) (key : κ) (value : ν) : Table κ ν where
  entries := (key, value) :: (t.erase key).entries
  keys := by
    refine List.nodup_cons.mpr ⟨?_, (t.erase key).keys⟩
    intro member
    obtain ⟨entry, inside, same⟩ := List.mem_map.mp member
    simp only [erase, filter, List.mem_filter, decide_eq_true_eq] at inside
    exact inside.2 same

variable {t : Table κ ν} {key : κ}

theorem mem_erase {row : κ × ν} (mem : row ∈ (t.erase key).entries) :
    row ∈ t.entries :=
  mem_of_mem_filter mem

variable {value : ν}

theorem mem_insert {row : κ × ν} (mem : row ∈ (t.insert key value).entries) :
    row = (key, value) ∨ row ∈ t.entries := by
  rcases mem_cons.mp mem with rfl | old
  · exact .inl rfl
  · exact .inr (mem_erase old)

theorem lookup_eq_some :
    t.lookup key = some value ↔ (key, value) ∈ t.entries := by
  constructor
  · intro found
    obtain ⟨entry, hit, rfl⟩ := Option.map_eq_some_iff.mp found
    have same : entry.1 = key := by simpa using find?_some hit
    subst same
    exact mem_of_find?_eq_some hit
  · intro mem
    exact congrArg (Option.map Prod.snd) (find?_key t.keys mem)

theorem lookup_filter (t : Table κ ν) (keep : κ × ν → Bool) (key : κ) :
    (t.filter keep).lookup key = (t.lookup key).filter fun value => keep (key, value) := by
  apply Option.ext
  intro value
  rw [lookup_eq_some, Option.filter_eq_some_iff, lookup_eq_some]
  exact mem_filter

@[simp, grind =] theorem lookup_erase (t : Table κ ν) (key other : κ) :
    (t.erase key).lookup other = if other = key then none else t.lookup other := by
  rw [erase, lookup_filter]
  by_cases same : other = key <;> cases t.lookup other <;> simp [same]

@[simp, grind =] theorem lookup_insert (t : Table κ ν) (key other : κ) (value : ν) :
    (t.insert key value).lookup other = if other = key then some value else t.lookup other := by
  have first : (t.insert key value).lookup other =
      if key = other then some value else (t.erase key).lookup other := by
    by_cases same : key = other <;> simp [lookup, insert, same]
  rw [first, lookup_erase]
  grind

end Table

end TrojanGo.Lib
