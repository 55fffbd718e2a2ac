import TrojanGo.Router.Loading

/-!
# Names in different spellings

The values of the rules are in lower case and a name is compared with them as it is, so two
spellings of a name may be routed differently.
-/
namespace TrojanGo.Router

open Tunnel Geodata

/-! ### Letters -/

def isUpper (b : UInt8) : Bool := 65 ≤ b ∧ b ≤ 90

def isLower (b : UInt8) : Bool := 97 ≤ b ∧ b ≤ 122

/-- The letter in lower case. -/
def folded (b : UInt8) : UInt8 := if isUpper b then b + 32 else b

theorem isUpper_folded (b : UInt8) : isUpper (folded b) = false := by
  unfold folded
  split
  next upper => grind [isUpper]
  next other => simpa using other

/-- The addresses differ in the case of letters of the name only. -/
structure Spelling (a b : Address) : Prop where
  named : a.addressType = .domainName
  apart : b = { a with domainName := b.domainName }
  folds : a.domainName.map folded = b.domainName.map folded

theorem folded_eq_dot (b : UInt8) : folded b = dot ↔ b = dot := by
  unfold folded
  split
  next upper => grind [isUpper, dot]
  · rfl

/-! ### Rules on letters -/

/-- The value of the rule stands in the name, over a byte in which the other spelling differs. -/
def Domain.Covers (name other : Bytes) (d : Domain) : Prop :=
  ∃ k i, d.value <+: name.drop k ∧ k ≤ i ∧ i < k + d.value.length ∧ name[i]? ≠ other[i]?

/-- The code takes the rule to match the name: rightly or because it misreads it. -/
def Domain.Taken (regex : Bytes → Bytes → Option Bool) (name : Bytes) (d : Domain) : Prop :=
  d.Matches regex name ↔ ¬ d.Misread name

section Letters

variable {regex : Bytes → Bytes → Option Bool} {name other : Bytes} {d : Domain}

theorem Domain.stands_in (same : ¬ d.Covers name other) {k : Nat} (here : d.value <+: name.drop k) :
    d.value <+: other.drop k := by
  rw [List.prefix_iff_eq_take]
  refine (List.prefix_iff_eq_take.mp here).trans (List.ext_getElem? fun j => ?_)
  simp only [List.getElem?_take, List.getElem?_drop]
  split
  next inside =>
    by_contra differ
    exact same ⟨k, k + j, here, by omega, by omega, differ⟩
  · rfl

theorem Domain.reads_eq (folds : name.map folded = other.map folded) (type : d.type ≠ .regex)
    (same : ¬ d.Covers name other) (same' : ¬ d.Covers other name) :
    d.reads regex name = d.reads regex other := by
  have length : name.length = other.length := by simpa using congrArg List.length folds
  have places (k : Nat) : d.value <+: name.drop k ↔ d.value <+: other.drop k :=
    ⟨d.stands_in same, d.stands_in same'⟩
  have first : index name d.value = index other d.value := by
    simp only [index, length]
    congr 1
    funext k
    rw [Bool.eq_iff_iff, List.isPrefixOf_iff_prefix, List.isPrefixOf_iff_prefix, places]
  have dots (k : Nat) : name.getD k 0 = dot ↔ other.getD k 0 = dot := by
    have at_k : folded (name.getD k 0) = folded (other.getD k 0) := by
      have both := congrArg (fun l => l[k]?.getD (folded 0)) folds
      simpa only [List.getD, List.getElem?_map, Option.getD_map] using both
    rw [← folded_eq_dot, at_k, folded_eq_dot]
  have whole (l : Bytes) : d.value = l ↔ d.value <+: l.drop 0 ∧ d.value.length = l.length :=
    ⟨fun eq => by simp [eq], fun both => both.1.eq_of_length both.2⟩
  have ends (l : Bytes) : d.value <:+ l ↔
      d.value.length ≤ l.length ∧ d.value <+: l.drop (l.length - d.value.length) := by
    rw [List.suffix_iff_eq_drop]
    refine ⟨fun eq => ⟨?_, ?_⟩, fun both => both.2.eq_of_length (by simp; omega)⟩
    · rw [eq]
      simp
    · rw [← eq]
  unfold Domain.reads
  cases kind : d.type with
  | full => simp only [whole name, whole other, places, length]
  | domain =>
    have suffixes : d.value.isSuffixOf name = d.value.isSuffixOf other := by
      rw [Bool.eq_iff_iff, List.isSuffixOf_iff_suffix, List.isSuffixOf_iff_suffix, ends, ends,
        length, places]
    simp only [underDomain, suffixes, first, dots]
  | plain => simp only [first]
  | regex => exact absurd kind type
  | unknown => rfl

theorem Domain.covers_of_taken (folds : name.map folded = other.map folded)
    (type : d.type ≠ .regex) (taken : d.Taken regex name) (not : ¬ d.Taken regex other) :
    d.Covers name other ∨ d.Covers other name := by
  by_contra none
  obtain ⟨same, same'⟩ := not_or.mp none
  rw [Taken, ← reads_iff] at taken not
  exact not (Domain.reads_eq folds type same same' ▸ taken)

end Letters

/-! ### The policy of a name -/

def Policy.rank : Policy → Nat
  | .block => 0
  | .bypass => 1
  | .proxy => 2

variable (regex : Bytes → Bytes → Option Bool) (c : Client)

/-- The policy is the first one that tells the spellings apart, and it takes the first of them: by
a rule over letters in which they differ. -/
structure Client.Parts (name other : Bytes) (p : Policy) : Prop where
  rule : ∃ d ∈ c.domains p, d.Taken regex name ∧ (d.Covers name other ∨ d.Covers other name)
  alone : ∀ d ∈ c.domains p, ¬ d.Taken regex other
  earlier : ∀ q, q.rank < p.rank → ∀ d ∈ c.domains q, ¬ d.Taken regex name ∧ ¬ d.Taken regex other

/-- The policy of the networks for the address of a name. -/
def Client.network (lookup : Option IP) (a : Address) : Option Policy := (c.byLookup lookup a).1

/-- The policy of a name without a rule. -/
def Client.unmatched (lookup : Option IP) (a : Address) : Policy :=
  if c.domainStrategy = .ipIfNonMatch then (c.network lookup a).getD c.defaultPolicy
  else c.defaultPolicy

/-- The name gets the policy without a rule of it or of a policy behind it. -/
def Client.Unruled (lookup : Option IP) (a : Address) (p : Policy) : Prop :=
  p = c.unmatched lookup a ∧
    ∀ q, p.rank < q.rank → ∀ d ∈ c.domains q, ¬ d.Taken regex a.domainName

variable {regex} {c}

section Names

variable (noRegex : ∀ p, ∀ d ∈ c.domains p, d.type ≠ .regex) {name : Bytes}
include noRegex

theorem matchDomain_eq_true (p : Policy) :
    matchDomain regex name (c.domains p) = true ↔ ∃ d ∈ c.domains p, d.Taken regex name := by
  have valid : ∀ d ∈ c.domains p, d.Invalid regex name = false := fun d mem => by
    simp [Domain.Invalid, noRegex p d mem]
  have all : reached regex name (c.domains p) = c.domains p :=
    List.takeWhile_eq_self_iff.mpr fun d mem => by simp [valid d mem]
  rw [matchDomain_iff, all]
  simp only [Domain.reads_iff, Domain.Taken]

theorem matchDomain_eq_false (p : Policy) :
    matchDomain regex name (c.domains p) = false ↔ ∀ d ∈ c.domains p, ¬ d.Taken regex name := by
  rw [← Bool.not_eq_true, matchDomain_eq_true noRegex]
  simp

theorem parts_iff {other : Bytes} (folds : name.map folded = other.map folded) (p : Policy) :
    c.Parts regex name other p ↔ matchDomain regex name (c.domains p) = true ∧
      matchDomain regex other (c.domains p) = false ∧
      ∀ q, q.rank < p.rank → matchDomain regex name (c.domains q) = false ∧
        matchDomain regex other (c.domains q) = false := by
  simp only [matchDomain_eq_true noRegex, matchDomain_eq_false noRegex, ← forall_and]
  constructor
  · rintro ⟨⟨d, mem, taken, -⟩, others, earlier⟩
    exact ⟨⟨d, mem, taken⟩, others, earlier⟩
  · rintro ⟨⟨d, mem, taken⟩, others, earlier⟩
    exact ⟨⟨d, mem, taken, Domain.covers_of_taken folds (noRegex p d mem) taken (others d mem)⟩,
      others, earlier⟩

end Names

/-! ### Routing -/

theorem route_named {lookup : Option IP} {a : Address} (named : a.addressType = .domainName) :
    (c.route regex lookup a).1 =
      if c.domainStrategy = .ipOnDemand ∧ (c.network lookup a).isSome then
        (c.network lookup a).getD c.defaultPolicy
      else (c.byName regex a.domainName).getD (c.unmatched lookup a) := by
  have kept : (c.byLookup lookup a).2.domainName = a.domainName := by
    unfold Client.byLookup resolveIP
    by_cases cached : a.ip = []
    · cases lookup <;> simp [named, cached]
    · simp [named, cached]
  unfold Client.route Client.unmatched Client.network
  rw [if_pos named]
  cases c.domainStrategy with
  | asIs => simp
  | ipOnDemand =>
    simp only [kept]
    cases (c.byLookup lookup a).1 <;> simp
  | ipIfNonMatch =>
    cases c.byName regex a.domainName <;> simp

/-- When two spellings of a name have the same policy: the address is in a network that is looked
at first, or a policy that takes only one of them, by a rule over letters in which they differ, is
also what the other gets without a rule. -/
def Client.SamePolicy (regex : Bytes → Bytes → Option Bool) (c : Client) (lookup : Option IP)
    (a b : Address) : Prop :=
  c.domainStrategy = .ipOnDemand ∧ (c.network lookup a).isSome ∨
  ∀ p, (c.Parts regex a.domainName b.domainName p → c.Unruled regex lookup b p) ∧
    (c.Parts regex b.domainName a.domainName p → c.Unruled regex lookup a p)

theorem find_eq_iff (f g : Policy → Bool) (unmatched : Policy) :
    (policies.find? f).getD unmatched = (policies.find? g).getD unmatched ↔
      ∀ p, (f p = true ∧ g p = false ∧ (∀ q, q.rank < p.rank → f q = false ∧ g q = false) →
          p = unmatched ∧ ∀ q, p.rank < q.rank → g q = false) ∧
        (g p = true ∧ f p = false ∧ (∀ q, q.rank < p.rank → g q = false ∧ f q = false) →
          p = unmatched ∧ ∀ q, p.rank < q.rank → f q = false) := by
  have all (P : Policy → Prop) : (∀ p, P p) ↔ P .block ∧ P .bypass ∧ P .proxy :=
    ⟨fun every => ⟨every _, every _, every _⟩, fun ⟨one, two, three⟩ p => by cases p <;> assumption⟩
  simp only [all, policies, List.find?_cons, List.find?_nil, Policy.rank]
  cases f .block <;> cases g .block <;> simp <;>
    cases f .bypass <;> cases g .bypass <;> simp <;>
    cases f .proxy <;> cases g .proxy <;> cases unmatched <;> simp

section Routes

variable {lookup : Option IP} {a b : Address} (spelling : Spelling a b)
include spelling

theorem Spelling.network_eq : c.network lookup b = c.network lookup a := by
  rw [spelling.apart]
  unfold Client.network Client.byLookup resolveIP
  by_cases cached : a.ip = []
  · cases lookup <;> simp [spelling.named, cached]
  · simp [spelling.named, cached]

theorem Spelling.unmatched_eq : c.unmatched lookup b = c.unmatched lookup a := by
  unfold Client.unmatched
  rw [spelling.network_eq]

theorem Spelling.route_eq_iff (noRegex : ∀ p, ∀ d ∈ c.domains p, d.type ≠ .regex) :
    (c.route regex lookup a).1 = (c.route regex lookup b).1 ↔ c.SamePolicy regex lookup a b := by
  have named : b.addressType = .domainName := by
    rw [spelling.apart]
    exact spelling.named
  rw [route_named spelling.named, route_named named, spelling.network_eq, spelling.unmatched_eq]
  unfold Client.SamePolicy
  by_cases first : c.domainStrategy = .ipOnDemand ∧ (c.network lookup a).isSome
  · simp [first]
  rw [if_neg first, if_neg first]
  simp only [first, false_or, Client.Unruled, parts_iff noRegex spelling.folds,
    parts_iff noRegex spelling.folds.symm, ← matchDomain_eq_false noRegex, spelling.unmatched_eq]
  exact find_eq_iff _ _ _

end Routes

/-! ### Names in capitals -/

def isLetter (b : UInt8) : Bool := isUpper b || isLower b

/-- The value of a rule that matches occurs in the name. -/
theorem Domain.value_infix {d : Domain} {name : Bytes} (type : d.type ≠ .regex)
    (reads : d.reads regex name = true) : d.value <:+: name := by
  unfold Domain.reads at reads
  cases kind : d.type with
  | full =>
    simp only [kind, decide_eq_true_eq] at reads
    rw [reads]
  | domain =>
    simp only [kind, underDomain, Bool.and_eq_true, List.isSuffixOf_iff_suffix] at reads
    exact reads.1.isInfix
  | plain =>
    simp only [kind] at reads
    exact index_isSome_iff.mp reads
  | regex => exact absurd kind type
  | unknown => simp [kind] at reads

/-- Two spellings of a name have the same policy exactly under `SamePolicy`, and so if no rule lies
over letters in which they differ. A name in capitals is matched by rules without letters only, if
the rules are given in the configuration. -/
theorem route_spelling_iff (regex : Bytes → Bytes → Option Bool) {lib : Libraries} {cfg : Config}
    (made : newClient lib cfg = .ok c) (noRegex : ∀ p, ∀ d ∈ c.domains p, d.type ≠ .regex)
    (lookup : Option IP) {a b : Address} (spelling : Spelling a b) :
    ((c.route regex lookup a).1 = (c.route regex lookup b).1 ↔
      c.SamePolicy regex lookup a b) ∧
    ((∀ p, ∀ d ∈ c.domains p, ¬ d.Covers a.domainName b.domainName ∧
        ¬ d.Covers b.domainName a.domainName) →
      (c.route regex lookup a).1 = (c.route regex lookup b).1) ∧
    (loadCode cfg (ascii "geosite:") = [] → (∀ s, ∀ x ∈ lib.toLower s, isUpper x = false) →
      (∀ x ∈ b.domainName, isLower x = false) →
      ∀ p, ∀ d ∈ c.domains p, d.reads regex b.domainName = true →
        ∀ x ∈ d.value, isLetter x = false) := by
  refine ⟨spelling.route_eq_iff noRegex, fun uncovered => ?_,
    fun noSites lowers capitals p d mem reads x inside => ?_⟩
  · refine (spelling.route_eq_iff noRegex).mpr (.inr fun p => ⟨?_, ?_⟩)
    · rintro ⟨⟨d, mem, -, covers⟩, -, -⟩
      exact absurd covers (not_or.mpr (uncovered p d mem))
    · rintro ⟨⟨d, mem, -, covers⟩, -, -⟩
      exact absurd covers.symm (not_or.mpr (uncovered p d mem))
  obtain ⟨r, loaded, domains, -⟩ := newClient_ok lib made
  rw [domains] at mem
  have type := noRegex p d (by rw [domains]; exact mem)
  rcases loadRules_given lib noSites loaded p d mem with isRegex | ⟨code, value⟩
  · exact absurd isRegex type
  · have upper : isUpper x = false := lowers code x (value ▸ inside)
    have lower : isLower x = false := capitals x ((d.value_infix type reads).subset inside)
    simp [isLetter, upper, lower]

/-- Libraries for texts of ASCII letters, without files. -/
def plainLibraries : Libraries where
  toPlatform := asciiPlatform
  toLower s := s.map folded
  assetLocation filename := filename
  node _ := .unavailable
  unmarshalGeoIP _ := .error []
  unmarshalGeoIPList _ := .error []
  unmarshalGeoSite _ := .error []
  unmarshalGeoSiteList _ := .error []
  compile _ := true
  parseIP _ := none
  freedom := true

theorem route_spelling_iff_keyword :
    let cfg : Config := { bypass := [ascii "keyword:a"] }
    let a : Address := { addressType := .domainName, domainName := ascii "a.b", port := 80 }
    let b : Address := { a with domainName := ascii "A.B" }
    ∃ c, newClient plainLibraries cfg = .ok c ∧
      ((c.route (fun _ _ => none) none a).1 = (c.route (fun _ _ => none) none b).1 ↔
        c.SamePolicy (fun _ _ => none) none a b) ∧
      ∀ p, ∀ d ∈ c.domains p, d.reads (fun _ _ => none) b.domainName = true →
        ∀ x ∈ d.value, isLetter x = false := by
  intro cfg a b
  have made : newClient plainLibraries cfg = .ok _ := rfl
  have spelling : Spelling a b := ⟨rfl, rfl, by decide⟩
  have whole := route_spelling_iff (fun _ _ => none) made (by intro p; cases p <;> decide) none
    spelling
  have lowers : ∀ s, ∀ x ∈ plainLibraries.toLower s, isUpper x = false := by
    intro s x mem
    obtain ⟨y, -, rfl⟩ := List.mem_map.mp mem
    exact isUpper_folded y
  exact ⟨_, made, whole.1, whole.2.2 (by decide) lowers (by decide +kernel)⟩

/-- The rule `full:example.com` blocks `example.com`, and lets `EXAMPLE.COM` pass. -/
theorem capitals_pass :
    let cfg : Config := { block := [ascii "full:example.com"] }
    let a : Address :=
      { addressType := .domainName, domainName := ascii "example.com", port := 443 }
    let b : Address := { a with domainName := ascii "EXAMPLE.COM" }
    Spelling a b ∧ ∃ c, newClient plainLibraries cfg = .ok c ∧
      (∀ p, ∀ d ∈ c.domains p, d.type ≠ .regex) ∧
      (c.route (fun _ _ => none) none a).1 = .block ∧
      (c.route (fun _ _ => none) none b).1 = .proxy := by
  refine ⟨⟨rfl, rfl, by decide⟩, _, rfl, ?_, by decide, by decide⟩
  intro p
  cases p <;> decide

end TrojanGo.Router
