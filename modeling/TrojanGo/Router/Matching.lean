import TrojanGo.Router.Rules
import TrojanGo.Tunnel.Connections

/-!
# What the domain rules match

The code looks at the first place where the value of a domain rule occurs in the target and not at
the last, and it gives up at a regular expression that does not compile.
-/
namespace TrojanGo.Router

open Tunnel List

/-! ### Single rules -/

variable (regex : Bytes → Bytes → Option Bool)

/-- What a rule matches on its own. -/
def Domain.Matches (target : Bytes) (d : Domain) : Prop :=
  match d.type with
  | .full => target = d.value
  | .domain => target = d.value ∨ dot :: d.value <:+ target
  | .plain => d.value <:+: target
  | .regex => regex d.value target = some true
  | .unknown => False

/-- A label of the name begins here. -/
def AtLabel (target : Bytes) (k : Nat) : Prop := k = 0 ∨ target.getD (k - 1) 0 = dot

/-- The value ends the target, and it occurs there for the first time at another place; a label
begins at one of the two places and not at the other. -/
def Misread (value target : Bytes) : Prop :=
  value <:+ target ∧ ∃ k, index target value = some k ∧
    ¬ (AtLabel target k ↔ AtLabel target (target.length - value.length))

def Domain.Misread (target : Bytes) (d : Domain) : Prop :=
  d.type = .domain ∧ Router.Misread d.value target

/-- What the code takes a rule to match, apart from the rules in front of it. -/
def Domain.reads (target : Bytes) (d : Domain) : Bool :=
  match d.type with
  | .full => d.value = target
  | .domain => underDomain d.value target
  | .plain => (index target d.value).isSome
  | .regex => regex d.value target = some true
  | .unknown => false

theorem index_isSome_iff {target sub : Bytes} : (index target sub).isSome ↔ sub <:+: target := by
  simp only [index, find?_isSome, mem_range, isPrefixOf_iff_prefix]
  constructor
  · rintro ⟨k, -, here⟩
    exact here.isInfix.trans (drop_suffix k target).isInfix
  · intro inside
    obtain ⟨rest, here, behind⟩ := infix_iff_prefix_suffix.mp inside
    rw [suffix_iff_eq_drop.mp behind] at here
    exact ⟨target.length - rest.length, by omega, here⟩

/-- A name that ends with a value is below it if a label begins there. -/
theorem below_iff {value target : Bytes} (ends : value <:+ target) :
    target = value ∨ dot :: value <:+ target ↔
      AtLabel target (target.length - value.length) := by
  obtain ⟨front, rfl⟩ := ends
  have place : (front ++ value).length - value.length = front.length := by simp
  rw [place, AtLabel]
  rcases eq_nil_or_concat' front with rfl | ⟨init, last, rfl⟩
  · simp
  have before : ((init ++ [last]) ++ value).getD ((init ++ [last]).length - 1) 0 = last := by
    simp
  have longer : ¬ (init ++ [last]) ++ value = value := by grind
  have nonempty : ¬ (init ++ [last]).length = 0 := by simp
  rw [before]
  simp only [longer, nonempty, false_or]
  rw [append_assoc, singleton_append]
  constructor
  · intro ends
    have same := suffix_of_suffix_length_le ends
      (suffix_append init (last :: value)) (by simp)
    have equal := same.eq_of_length (by simp)
    exact (cons.inj equal).1.symm
  · rintro rfl
    exact suffix_append init _

theorem underDomain_iff {value target : Bytes} {k : Nat} (ends : value <:+ target)
    (first : index target value = some k) : underDomain value target = true ↔ AtLabel target k := by
  simp [underDomain, ends, first, AtLabel]

variable (target : Bytes)

/-- The code reads a rule as it is meant, unless it misreads it. -/
theorem Domain.reads_iff (d : Domain) :
    d.reads regex target = true ↔ (d.Matches regex target ↔ ¬ d.Misread target) := by
  obtain ⟨type, value⟩ := d
  cases type with
  | full => simp [reads, Matches, Domain.Misread, eq_comm]
  | plain => simp [reads, Matches, Domain.Misread, index_isSome_iff]
  | regex | unknown => simp [reads, Matches, Domain.Misread]
  | domain =>
    simp only [reads, Matches, Domain.Misread, true_and]
    by_cases ends : value <:+ target
    · obtain ⟨k, first⟩ := Option.isSome_iff_exists.mp (index_isSome_iff.mpr ends.isInfix)
      rw [underDomain_iff ends first, below_iff ends]
      simp only [Router.Misread, ends, first, true_and, Option.some.injEq, exists_eq_left']
      by_cases begins : AtLabel target k <;>
        by_cases last : AtLabel target (target.length - value.length) <;> simp [begins, last]
    · have apart : ¬ (target = value ∨ dot :: value <:+ target) := by
        rintro (rfl | below)
        · exact ends (suffix_refl _)
        · exact ends ((suffix_cons dot value).trans below)
      have unread : underDomain value target = false := by
        simp [underDomain, ends]
      simp [unread, apart, Router.Misread, ends]

/-! ### Lists of rules -/

/-- A regular expression that does not compile. -/
def Domain.Invalid (target : Bytes) (d : Domain) : Bool :=
  d.type = .regex && (regex d.value target).isNone

/-- The rules in front of the first invalid one. -/
def reached (target : Bytes) (list : List Domain) : List Domain :=
  list.takeWhile fun d => !d.Invalid regex target

theorem matchDomain_cons (d : Domain) (list : List Domain) : matchDomain regex target (d :: list) =
      (!d.Invalid regex target && (d.reads regex target || matchDomain regex target list)) := by
  obtain ⟨type, value⟩ := d
  cases type with
  | regex => grind [matchDomain, Domain.Invalid, Domain.reads]
  | _ => simp [matchDomain, Domain.Invalid, Domain.reads]

theorem matchDomain_iff (list : List Domain) : matchDomain regex target list = true ↔
      ∃ d ∈ reached regex target list, d.reads regex target = true := by
  induction list with
  | nil => simp [matchDomain, reached]
  | cons d list ih =>
    rw [matchDomain_cons]
    cases invalid : d.Invalid regex target with
    | true => simp [reached, invalid]
    | false =>
      simp only [reached] at ih
      simp [reached, invalid, ih]

/-- Either some rule matches, and the code reads one in front of the first invalid one to match;
or none does, and none of these is misread. -/
def ReadAsMeant (target : Bytes) (list : List Domain) : Prop :=
  (∃ d ∈ list, d.Matches regex target) ∧
      (∃ d ∈ reached regex target list, (d.Matches regex target ↔ ¬ d.Misread target)) ∨
    (∀ d ∈ list, ¬ d.Matches regex target) ∧
      ∀ d ∈ reached regex target list, ¬ d.Misread target

theorem exact_iff (list : List Domain) :
    (matchDomain regex target list = true ↔ ∃ d ∈ list, d.Matches regex target) ↔
      ReadAsMeant regex target list := by
  rw [matchDomain_iff]
  simp only [Domain.reads_iff, ReadAsMeant]
  by_cases some : ∃ d ∈ list, d.Matches regex target
  · grind
  have none : ∀ d ∈ list, ¬ d.Matches regex target := by simpa using some
  have front : ∀ d ∈ reached regex target list, ¬ d.Matches regex target := fun d mem =>
    none d ((takeWhile_sublist _).subset mem)
  simp only [some, iff_false, false_and, false_or]
  simp only [not_exists, not_and]
  constructor
  · grind
  · rintro ⟨-, read⟩ d mem same
    exact front d mem (same.mpr (read d mem))

/-- `matchDomain` matches exactly what some rule matches on its own if and only if the rules are
read as they are meant; between two such lists, adding or reordering rules keeps a match. -/
theorem matchDomain_exact_iff (regex : Bytes → Bytes → Option Bool) (target : Bytes)
    (list : List Domain) :
    ((matchDomain regex target list = true ↔ ∃ d ∈ list, d.Matches regex target) ↔
      ReadAsMeant regex target list) ∧
    ∀ list', list ⊆ list' → ReadAsMeant regex target list → ReadAsMeant regex target list' →
      matchDomain regex target list = true → matchDomain regex target list' = true := by
  refine ⟨exact_iff regex target list, fun list' more read read' hit => ?_⟩
  obtain ⟨d, mem, matched⟩ := ((exact_iff regex target list).mpr read).mp hit
  exact ((exact_iff regex target list').mpr read').mpr ⟨d, more mem, matched⟩

/-- The rule `domain:example.com` misses a name below `example.com`, because the value occurs in
another label before. -/
theorem later_label_missed :
    let list := [Domain.mk .domain (ascii "example.com")]
    let target := ascii "myexample.com.example.com"
    matchDomain (fun _ _ => none) target list = false ∧
      ∃ d ∈ list, d.Matches (fun _ _ => none) target := by
  refine ⟨by decide, _, mem_singleton.mpr rfl, ?_⟩
  exact .inr ⟨ascii "myexample.com", by decide⟩

end TrojanGo.Router
