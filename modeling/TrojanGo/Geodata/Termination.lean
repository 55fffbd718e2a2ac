import TrojanGo.Geodata.Decode
import TrojanGo.Lib.Chains

/-!
# Whether the scan of a geodata file returns

An entry of a length of `2 ^ 63` or more may lead back to an entry that has been passed. The scan
returns unless it goes round in this way, or has to make a slice that is too large.
-/
namespace TrojanGo.Geodata

open Lib Lib.Chains

variable {env : Platform} {code content : Bytes} {p : Nat}

/-! ### Headers lie in the file -/

theorem readTag_length {v n : Nat} (read : readTag content p = .ok (v, n)) :
    p + 1 + n ≤ content.length := by
  unfold readTag at read
  cases rest : content.drop p with
  | nil => simp [rest] at read
  | cons b bytes =>
    rw [rest] at read
    simp only at read
    split at read
    · cases read
    · have bound := (readLength_length (by simp) read).2
      have length := congrArg List.length rest
      simp only [List.length_drop, List.length_cons, List.length_nil] at length bound
      omega

variable {h : Header} {q : Nat} {e : Emitted}

theorem readHeader_ok (read : readHeader content p = .ok h) :
    p < h.start ∧ h.codeStart ≤ content.length := by
  unfold readHeader at read
  cases first : readTag content p with
  | error e => simp [first, bind, Except.bind] at read
  | ok result =>
    obtain ⟨length, lengthBytes⟩ := result
    simp only [first, bind, Except.bind] at read
    cases second : readTag content (p + 1 + lengthBytes) with
    | error e => simp [second] at read
    | ok result =>
      obtain ⟨codeLength, lenBytes⟩ := result
      simp only [second, pure, Except.pure, Except.ok.injEq] at read
      subst read
      exact ⟨by simp only; omega, readTag_length second⟩

theorem entry_past (past : content.length ≤ p) :
    entry env content code p = .fail .codeNotFound := by
  have rest : content.drop p = [] := List.drop_eq_nil_iff.mpr past
  simp [entry, readHeader, readTag, rest, bind, Except.bind]

/-! ### From entry to entry -/

/-- Where the entry at a position leads to. -/
def following (env : Platform) (content code : Bytes) (p : Nat) : Option Nat :=
  match entry env content code p with
  | .next q => some q
  | .ended _ => none

theorem following_eq_some :
    following env content code p = some q ↔ entry env content code p = .next q := by
  unfold following
  split <;> simp [*]

theorem following_eq_none :
    following env content code p = none ↔ ∃ e, entry env content code p = .ended e := by
  unfold following
  split <;> simp [*]

theorem following_inside (p q : Nat) (leads : following env content code p = some q) :
    p ∈ Finset.range content.length := by
  rw [following_eq_some] at leads
  rw [Finset.mem_range]
  by_contra past
  rw [entry_past (Nat.not_lt.mp past)] at leads
  cases leads

/-- The rounds that one entry takes. -/
theorem run_entry (env : Platform) (code : Bytes) (placed : content.length ≤ env.maxOffset)
    (p length codeLength lenBytes : Nat) :
    ∃ k ≤ 2 * content.length + 6, 0 < k ∧ ∃ length' codeLength' lenBytes', ∀ m,
      run env code (m + k) (startAt content p length codeLength lenBytes) =
        match entry env content code p with
        | .ended e => some e
        | .next q => run env code m (startAt content q length' codeLength' lenBytes') := by
  obtain ⟨k, bound, header⟩ := run_header env code content p length codeLength lenBytes
  cases read : readHeader content p with
  | error e =>
    have positive : 0 < k := by
      rcases k.eq_zero_or_pos with none | positive
      · have never := header 0
        rw [none, read] at never
        cases never
      · exact positive
    refine ⟨k, by omega, positive, 0, 0, 0, fun m => ?_⟩
    rw [header m, entry, read]
    rfl
  | ok h =>
    obtain ⟨k', bound', positive, turned⟩ := run_code env code h (readHeader_ok read).2 placed
    refine ⟨k' + k, by omega, by omega, h.length, h.codeLength, h.lenBytes, fun m => ?_⟩
    rw [← Nat.add_assoc, header, entry, read]
    exact turned m

theorem run_more {s : Scan} {k : Nat} (ran : run env code k s = some e) (m : Nat) :
    run env code (m + k) s = some e := by
  induction k generalizing s with
  | zero => cases ran
  | succ k ih =>
    rw [← Nat.add_assoc, run]
    rw [run] at ran
    split at ran
    · exact ih ran
    · exact ran

theorem run_unique {s : Scan} {k k' : Nat} {e' : Emitted} (ran : run env code k s = some e)
    (ran' : run env code k' s = some e') : e = e' := by
  have := run_more ran k'
  rw [Nat.add_comm, run_more ran' k] at this
  exact (Option.some.inj this).symm

/-- The rounds that the entries along a chain take. -/
theorem run_chain (placed : content.length ≤ env.maxOffset) {n : Nat}
    (reached : chain (following env content code) n p = some q) (length codeLength lenBytes : Nat) :
    ∃ k ≤ n * (2 * content.length + 6), n ≤ k ∧ ∃ length' codeLength' lenBytes', ∀ m,
      run env code (m + k) (startAt content p length codeLength lenBytes) =
        run env code m (startAt content q length' codeLength' lenBytes') := by
  induction n generalizing p length codeLength lenBytes with
  | zero =>
    cases reached
    exact ⟨0, by omega, by omega, length, codeLength, lenBytes, fun m => rfl⟩
  | succ n ih =>
    obtain ⟨p', step, rest⟩ := Option.bind_eq_some_iff.mp reached
    rw [following_eq_some] at step
    obtain ⟨k, bound, positive, length', codeLength', lenBytes', ran⟩ :=
      run_entry env code placed p length codeLength lenBytes
    obtain ⟨k', bound', many, last⟩ := ih rest length' codeLength' lenBytes'
    obtain ⟨length'', codeLength'', lenBytes'', ran'⟩ := last
    refine ⟨k' + k, ?_, by omega, length'', codeLength'', lenBytes'', fun m => ?_⟩
    · rw [Nat.succ_mul]
      omega
    · rw [← Nat.add_assoc, ran, step]
      exact ran' m

/-- The last entry that the scan looks at gives the result. -/
def Ends (env : Platform) (content code : Bytes) (e : Emitted) : Prop :=
  ∃ n q, chain (following env content code) n 0 = some q ∧ entry env content code q = .ended e

section

variable (placed : content.length ≤ env.maxOffset)

include placed

theorem run_of_ends (ends : Ends env content code e) :
    run env code (File.rounds ⟨content, 0, true⟩) { file := ⟨content, 0, true⟩ } = some e := by
  obtain ⟨n, q, reached, last⟩ := ends
  obtain ⟨k, bound, -, length, codeLength, lenBytes, ran⟩ := run_chain placed reached 0 0 0
  obtain ⟨k', bound', -, _, _, _, ran'⟩ := run_entry env code placed q length codeLength lenBytes
  have short : n ≤ content.length := by
    have := length_le_card following_inside reached (following_eq_none.mpr ⟨e, last⟩)
    rwa [Finset.card_range] at this
  have fits : k' + k ≤ File.rounds ⟨content, 0, true⟩ := calc
    k' + k ≤ (n + 1) * (2 * content.length + 6) := by
      rw [Nat.succ_mul]
      omega
    _ ≤ (content.length + 1) * (2 * content.length + 6) :=
      Nat.mul_le_mul_right _ (Nat.succ_le_succ short)
  have whole := ran k'
  have ended := ran' 0
  rw [last, Nat.zero_add] at ended
  rw [ended] at whole
  rw [← Nat.sub_add_cancel fits]
  exact run_more whole _

/-- The result of a scan that comes to an end is that of the last entry it looks at. -/
theorem ends_of_run {k : Nat} (ran : run env code k { file := ⟨content, 0, true⟩ } = some e) :
    Ends env content code e := by
  cases reached : chain (following env content code) k 0 with
  | some q =>
    -- so many entries take more rounds than there were
    obtain ⟨k', -, many, length, codeLength, lenBytes, goes⟩ := run_chain placed reached 0 0 0
    have still : run env code (k' - k + k) { file := ⟨content, 0, true⟩ } = none := by
      rw [Nat.sub_add_cancel many, ← Nat.zero_add k']
      exact goes 0
    rw [run_more ran] at still
    cases still
  | none =>
    obtain ⟨n, q, reached, last⟩ := exists_last reached
    obtain ⟨e', last⟩ := following_eq_none.mp last
    have ends : Ends env content code e' := ⟨n, q, reached, last⟩
    rwa [run_unique ran (run_of_ends placed ends)]

end

/-! ### Scans that return -/

/-- The slices that the scan makes for the entry at a position can be made. -/
def Fits (env : Platform) (content code : Bytes) (p : Nat) : Prop :=
  ∀ h, readHeader content p = .ok h →
    h.codeLength ≤ env.maxAlloc ∧
    (¬ Cut env content h.codeStart h.codeLength → env.equalFold (h.code content) code →
      h.length ≤ env.maxAlloc)

theorem turn_panics_iff :
    h.turn env content code = .ended .panicked ↔
      ¬ (h.codeLength ≤ env.maxAlloc ∧
        (¬ Cut env content h.codeStart h.codeLength → env.equalFold (h.code content) code →
          h.length ≤ env.maxAlloc)) := by
  unfold Header.turn Turn.fail
  by_cases large : env.maxAlloc < h.codeLength
  · grind
  rw [if_neg large]
  have small : h.codeLength ≤ env.maxAlloc := Nat.not_lt.mp large
  by_cases short : Cut env content h.codeStart h.codeLength
  · grind
  have long := (not_or.mp short).1
  have present : ¬ (h.codeLength ≠ 0 ∧ content.length ≤ h.codeStart) := by omega
  rw [if_neg present, if_neg short]
  by_cases matched : env.equalFold (h.code content) code
  · grind
  · simp [small, matched]

theorem entry_panics_iff :
    entry env content code p = .ended .panicked ↔ ¬ Fits env content code p := by
  unfold entry Fits
  cases readHeader content p with
  | error e => simp [Turn.fail]
  | ok h =>
    simp only [Except.ok.injEq, forall_eq']
    exact turn_panics_iff

/-- The entry that the scan comes to is one that the entries before it lead to. -/
abbrev Reached (env : Platform) (content code : Bytes) (p : Nat) : Prop :=
  Relation.ReflTransGen (Leads (following env content code)) 0 p

theorem ends_iff_acyclic :
    (∃ e, Ends env content code e) ↔ Acyclic (following env content code) 0 := by
  rw [← ends_iff following_inside]
  constructor
  · rintro ⟨e, n, q, reached, last⟩
    refine ⟨n + 1, ?_⟩
    rw [chain_add, reached, Option.bind_some, chain_one]
    exact following_eq_none.mpr ⟨e, last⟩
  · rintro ⟨n, ends⟩
    obtain ⟨m, q, reached, last⟩ := exists_last ends
    obtain ⟨e, last⟩ := following_eq_none.mp last
    exact ⟨e, m, q, reached, last⟩

theorem ends_returned_iff (placed : content.length ≤ env.maxOffset) :
    (∃ result, Ends env content code (.returned result)) ↔
      Acyclic (following env content code) 0 ∧
        ∀ p, Reached env content code p → Fits env content code p := by
  constructor
  · rintro ⟨result, ends⟩
    refine ⟨ends_iff_acyclic.mp ⟨_, ends⟩, fun p reached => ?_⟩
    by_contra large
    -- the entry with too large a slice is the last one, and there is only one last entry
    obtain ⟨n, there⟩ := reaches_iff.mp reached
    have panics : Ends env content code .panicked := ⟨n, p, there, entry_panics_iff.mpr large⟩
    cases run_unique (run_of_ends placed ends) (run_of_ends placed panics)
  · rintro ⟨acyclic, fit⟩
    obtain ⟨e, ends⟩ := ends_iff_acyclic.mpr acyclic
    cases e with
    | returned result => exact ⟨result, ends⟩
    | panicked =>
      obtain ⟨n, p, reached, last⟩ := ends
      exact absurd (fit p (reaches_iff.mpr ⟨n, reached⟩)) (entry_panics_iff.mp last)

/-- The scan returns exactly if it is not led back to an entry it has passed, and every slice it is
to make can be made. -/
theorem scan_returns_iff (placed : content.length ≤ env.maxOffset) :
    (∃ k result, run env code k { file := { content } } = some (.returned result)) ↔
      Acyclic (following env content code) 0 ∧
        ∀ p, Reached env content code p → Fits env content code p := by
  rw [← ends_returned_iff placed]
  constructor
  · rintro ⟨k, result, ran⟩
    exact ⟨result, ends_of_run placed ran⟩
  · rintro ⟨result, ends⟩
    exact ⟨_, result, run_of_ends placed ends⟩

/-- A platform of 64 bits, for texts of ASCII letters. -/
def asciiPlatform : Platform where
  maxAlloc := 2 ^ 48
  maxRead := 2 ^ 30
  maxOffset := 2 ^ 63 - 1
  fold s := s.map fun b => if 65 ≤ b ∧ b ≤ 90 then b.toNat + 32 else b.toNat
  maxAlloc_pos := by decide
  maxRead_pos := by decide
  maxAlloc_lt := by decide
  maxOffset_lt := by decide

theorem scan_returns_iff_small :
    let content : Bytes := [10, 3, 10, 1, 120]
    content.length ≤ asciiPlatform.maxOffset ∧
    ((∃ k result, run asciiPlatform [88] k { file := { content } } = some (.returned result)) ↔
      Acyclic (following asciiPlatform content [88]) 0 ∧
        ∀ p, Reached asciiPlatform content [88] p → Fits asciiPlatform content [88] p) :=
  ⟨by decide, scan_returns_iff (by decide)⟩

/-- An entry of `2 ^ 64 - 11` bytes leads back to itself, and a code of `2 ^ 64 - 1` bytes does
not fit into a slice. -/
theorem scan_not_returning :
    (¬ ∃ k result, run asciiPlatform [] k { file := { content :=
      [10, 245, 255, 255, 255, 255, 255, 255, 255, 255, 1, 10, 1, 120] } } =
        some (.returned result)) ∧
    ¬ ∃ k result, run asciiPlatform [] k { file := { content :=
      [10, 5, 10, 255, 255, 255, 255, 255, 255, 255, 255, 255, 1] } } =
        some (.returned result) := by
  constructor
  · rintro ⟨k, result, ran⟩
    have acyclic := ends_iff_acyclic.mp ⟨_, ends_of_run (by decide) ran⟩
    have back : following asciiPlatform
        [10, 245, 255, 255, 255, 255, 255, 255, 255, 255, 1, 10, 1, 120] [] 0 = some 0 := by rfl
    exact acyclic 0 .refl (.single back)
  · rintro ⟨k, result, ran⟩
    have panics : run asciiPlatform [] 14 { file := { content :=
        [10, 5, 10, 255, 255, 255, 255, 255, 255, 255, 255, 255, 1] } } = some .panicked := by
      rfl
    cases run_unique ran panics

/-! ### Lengths that lead forward -/

theorem turn_next (leads : h.turn env content code = .next q) :
    h.codeStart + h.codeLength ≤ content.length ∧ q = h.skip env := by
  unfold Header.turn Turn.fail at leads
  by_cases large : env.maxAlloc < h.codeLength
  · simp [large] at leads
  by_cases past : h.codeLength ≠ 0 ∧ content.length ≤ h.codeStart
  · simp [large, past] at leads
  rw [if_neg large, if_neg past] at leads
  by_cases short : Cut env content h.codeStart h.codeLength
  · simp [short] at leads
  have long := (not_or.mp short).1
  grind

theorem skip_forward (read : readHeader content p = .ok h)
    (inside : h.codeStart + h.codeLength ≤ content.length) (placed : content.length ≤ env.maxOffset)
    (small : h.length < 2 ^ 63) : p < h.skip env := by
  have limit := env.maxOffset_lt
  have after := (readHeader_ok read).1
  unfold Header.codeStart at inside
  unfold Header.skip Header.codeStart
  rw [int64_self (by omega) (by omega)]
  simp only
  split <;> omega

theorem following_forward (placed : content.length ≤ env.maxOffset)
    (small : ∀ h, readHeader content p = .ok h → h.length < 2 ^ 63)
    (leads : following env content code p = some q) : p < q := by
  rw [following_eq_some, entry] at leads
  cases read : readHeader content p with
  | error e => simp [read, Turn.fail] at leads
  | ok h =>
    rw [read] at leads
    obtain ⟨inside, rfl⟩ := turn_next leads
    exact skip_forward read inside placed (small h read)

/-- A file whose lengths are those of slices is scanned to an end. -/
theorem ends_of_small (placed : content.length ≤ env.maxOffset)
    (small : ∀ p h, readHeader content p = .ok h →
      h.length ≤ env.maxAlloc ∧ h.codeLength ≤ env.maxAlloc) :
    ∃ result, Ends env content code (.returned result) := by
  have forward : ∀ p q, Relation.TransGen (Leads (following env content code)) p q → p < q := by
    intro p q later
    have step : ∀ p q, Leads (following env content code) p q → p < q := fun p q leads =>
      following_forward placed
        (fun h read => Nat.lt_of_le_of_lt (small p h read).1 env.maxAlloc_lt) leads
    induction later with
    | single leads => exact step _ _ leads
    | tail _ leads ih => exact Nat.lt_trans ih (step _ _ leads)
  refine (ends_returned_iff placed).mpr ⟨fun p _ back => Nat.lt_irrefl p (forward p p back), ?_⟩
  intro p _ h read
  exact ⟨(small p h read).2, fun _ _ => (small p h read).1⟩

/-- A file whose lengths are those of slices is scanned to an end, well formed or not. -/
theorem emitBytes_returns (placed : content.length ≤ env.maxOffset)
    (small : ∀ p h, readHeader content p = .ok h →
      h.length ≤ env.maxAlloc ∧ h.codeLength ≤ env.maxAlloc) :
    ∃ result, emitBytes env ⟨content, 0, true⟩ code = some (.returned result) :=
  (ends_of_small placed small).imp fun _ => run_of_ends placed

/-- The first entry is skipped. -/
theorem emitBytes_returns_small :
    ∃ result, emitBytes asciiPlatform ⟨[10, 3, 10, 1, 120, 10, 2, 10, 0], 0, true⟩ [] =
      some (.returned result) :=
  emitBytes_returns (by decide) fun
    | 0, _, read | 5, _, read => by cases read; decide
    | 1, _, read | 2, _, read | 3, _, read | 4, _, read | 6, _, read | 7, _, read
    | 8, _, read => by cases read
    | _ + 9, _, read => by simp [readHeader, readTag, bind, Except.bind] at read

end TrojanGo.Geodata
