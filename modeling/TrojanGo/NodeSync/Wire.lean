import TrojanGo.Traffic
import Mathlib.Algebra.BigOperators.Group.List.Basic

/-!
# What a worker sends and accepts

The JSON text of a traffic report, as `encoding/json` writes it, and the checks a worker makes on
the master's answer.
-/
namespace TrojanGo.NodeSync

open List

/-! ### The request body -/

def hexDigit (n : Nat) : Char := Nat.digitChar (n % 16)

/-- A character inside a JSON string. -/
def quoteChar (c : Char) : List Char :=
  if c = '"' then ['\\', '"']
  else if c = '\\' then ['\\', '\\']
  else if c = '\n' then ['\\', 'n']
  else if c = '\r' then ['\\', 'r']
  else if c = '\t' then ['\\', 't']
  else if c.toNat = 8 then ['\\', 'b']
  else if c.toNat = 12 then ['\\', 'f']
  else if c.toNat < 32 ∨ c = '<' ∨ c = '>' ∨ c = '&' ∨ c.toNat = 0x2028 ∨ c.toNat = 0x2029 then
    ['\\', 'u', hexDigit (c.toNat / 4096), hexDigit (c.toNat / 256), hexDigit (c.toNat / 16),
      hexDigit c.toNat]
  else [c]

def quote (s : String) : List Char := '"' :: s.toList.flatMap quoteChar ++ ['"']

/-- One member of the traffic object. -/
def entryText (entry : Σ _ : String, Traffic) : List Char :=
  quote entry.1 ++ ":\x7b\"up\":".toList ++ Nat.toDigits 10 entry.2.up ++
    ",\"down\":".toList ++ Nat.toDigits 10 entry.2.down ++ "\x7d".toList

def members : List (List Char) → List Char
  | [] => []
  | [text] => text
  | text :: rest => text ++ ',' :: members rest

/-- The order in which the members of the object are written. -/
def sortedEntries (traffic : TrafficMap) : List (Σ _ : String, Traffic) :=
  traffic.entries.mergeSort fun a b => decide (a.1 ≤ b.1)

def requestText (traffic : TrafficMap) : List Char :=
  "\x7b\"traffic\":\x7b".toList ++ members ((sortedEntries traffic).map entryText) ++
    "\x7d\x7d".toList

def byteSize (text : List Char) : Nat := (text.map Char.utf8Size).sum

/-- The length of the body `performSync` posts for a batch. -/
def requestSize (traffic : TrafficMap) : Nat := byteSize (requestText traffic)

@[simp] theorem byteSize_append (a b : List Char) : byteSize (a ++ b) = byteSize a + byteSize b := by
  simp [byteSize]

theorem byteSize_infix (a b c : List Char) : byteSize b ≤ byteSize (a ++ b ++ c) := by
  simp only [byteSize_append]
  omega

theorem byteSize_members (texts : List (List Char)) :
    (texts.map byteSize).sum ≤ byteSize (members texts) := by
  induction texts with
  | nil => simp [members]
  | cons text rest ih =>
    cases rest with
    | nil => simp [members]
    | cons next more =>
      have separator : byteSize (',' :: members (next :: more)) =
          1 + byteSize (members (next :: more)) := by
        simp only [byteSize, map_cons, sum_cons]
        rfl
      rw [members, byteSize_append, separator, map_cons, sum_cons]
      · omega
      · simp

theorem byteSize_flatMap_quoteChar (chars : List Char) :
    chars.length ≤ byteSize (chars.flatMap quoteChar) := by
  induction chars with
  | nil => simp
  | cons c rest ih =>
    have visible : 1 ≤ byteSize (quoteChar c) := by
      have first : ∀ (d : Char) (more : List Char), 1 ≤ byteSize (d :: more) := by
        intro d more
        have positive := d.utf8Size_pos
        simp only [byteSize, map_cons, sum_cons]
        omega
      unfold quoteChar
      split_ifs <;> exact first _ _
    rw [flatMap_cons, byteSize_append, length_cons]
    omega

theorem byteSize_entryText (hash : String) :
    hash.length + 20 ≤ byteSize (entryText ⟨hash, ⟨1, 1⟩⟩) := by
  have name := byteSize_flatMap_quoteChar hash.toList
  have up : byteSize (":\x7b\"up\":".toList) = 7 := by decide
  have down : byteSize (",\"down\":".toList) = 8 := by decide
  have one : byteSize (Nat.toDigits 10 1) = 1 := by decide
  have close : byteSize ("\x7d".toList) = 1 := by decide
  have quotes : byteSize (quote hash) = 2 + byteSize (hash.toList.flatMap quoteChar) := by
    rw [quote, cons_append]
    simp only [byteSize, map_cons, sum_cons, map_append, sum_append,
      map_nil, sum_nil]
    have mark : Char.utf8Size '"' = 1 := by decide
    omega
  simp only [entryText, byteSize_append, up, down, one, close, quotes]
  rw [← String.length_toList]
  omega

/-- The body is at least as long as its members together. -/
theorem requestSize_ge (traffic : TrafficMap) :
    (traffic.entries.map fun entry => byteSize (entryText entry)).sum ≤ requestSize traffic := by
  have inside := byteSize_members ((sortedEntries traffic).map entryText)
  rw [map_map] at inside
  calc (traffic.entries.map fun entry => byteSize (entryText entry)).sum
      = ((sortedEntries traffic).map fun entry => byteSize (entryText entry)).sum :=
        ((mergeSort_perm ..).map _).sum_eq.symm
    _ ≤ byteSize (members ((sortedEntries traffic).map entryText)) := inside
    _ ≤ requestSize traffic := byteSize_infix _ _ _

/-! ### The answer -/

/-- An HTTP answer; `users` is absent when the body does not decode. -/
structure Response where
  status : Nat
  users : Option (List String)
  deriving DecidableEq, Repr

def isHexDigit (c : Char) : Bool :=
  ('0' ≤ c ∧ c ≤ '9') ∨ ('a' ≤ c ∧ c ≤ 'f') ∨ ('A' ≤ c ∧ c ≤ 'F')

def validateUserHashesFrom (seen : List String) : List String → Except String Unit
  | [] => .ok ()
  | hash :: rest =>
    if hash.utf8ByteSize ≠ 56 then
      .error s!"invalid user hash length {hash.utf8ByteSize}"
    else if hash.toList.any fun c => !isHexDigit c then
      .error "invalid SHA-224 user hash"
    else if hash ∈ seen then
      .error "duplicate user hash in sync response"
    else validateUserHashesFrom (hash :: seen) rest

def validateUserHashes (hashes : List String) : Except String Unit :=
  validateUserHashesFrom [] hashes

/-- The checks between the answer and the acknowledgement of the batch. -/
def checkResponse (response : Response) : Except String (List String) :=
  if response.status ≠ 200 then
    .error s!"master returned abnormal status: {response.status}"
  else
    match response.users with
    | none => .error "failed to decode response"
    | some users =>
      match validateUserHashes users with
      | .error reason => .error s!"master returned invalid user hashes: {reason}"
      | .ok () => .ok users

/-- The text of a SHA-224 sum. -/
def WellFormedHash (hash : String) : Prop :=
  hash.utf8ByteSize = 56 ∧ ∀ c ∈ hash.toList, isHexDigit c = true

theorem validateUserHashesFrom_ok (seen hashes : List String) :
    validateUserHashesFrom seen hashes = .ok () ↔
      (∀ hash ∈ hashes, WellFormedHash hash ∧ hash ∉ seen) ∧ hashes.Nodup := by
  induction hashes generalizing seen with
  | nil => simp [validateUserHashesFrom]
  | cons hash rest ih =>
    have digits : (hash.toList.any fun c => !isHexDigit c) = true ↔
        ¬ ∀ c ∈ hash.toList, isHexDigit c = true := by
      simp
    unfold validateUserHashesFrom
    by_cases size : hash.utf8ByteSize = 56
    · rw [if_neg (not_not.mpr size)]
      by_cases hex : ∀ c ∈ hash.toList, isHexDigit c = true
      · rw [if_neg fun bad => digits.mp bad hex]
        by_cases old : hash ∈ seen
        · simp [old]
        · rw [if_neg old, ih]
          have formed : WellFormedHash hash := ⟨size, hex⟩
          simp only [mem_cons, nodup_cons, forall_eq_or_imp, not_or]
          constructor
          · grind
          · grind
      · rw [if_pos (digits.mpr hex)]
        exact iff_of_false (by simp) fun valid => hex (valid.1 hash mem_cons_self).1.2
    · rw [if_pos size]
      exact iff_of_false (by simp) fun valid => size (valid.1 hash mem_cons_self).1.1

/-- The answer is not one that a worker acts on. -/
def Response.Rejected (response : Response) : Prop :=
  response.status ≠ 200 ∨ response.users = none ∨
    ∃ users, response.users = some users ∧ ((∃ hash ∈ users, ¬ WellFormedHash hash) ∨ ¬ users.Nodup)

/-- An answer is accepted with the list it holds, or it is rejected. -/
theorem checkResponse_cases (response : Response) :
    (∃ users, checkResponse response = .ok users ∧ response.status = 200 ∧
      response.users = some users ∧ ¬ response.Rejected) ∨
    ∃ reason, checkResponse response = .error reason ∧ response.Rejected := by
  unfold checkResponse
  by_cases status : response.status = 200
  · rw [if_neg (not_not.mpr status)]
    cases decoded : response.users with
    | none => exact .inr ⟨_, rfl, .inr (.inl decoded)⟩
    | some users =>
      have valid := validateUserHashesFrom_ok [] users
      cases checked : validateUserHashesFrom [] users with
      | error reason =>
        rw [checked] at valid
        refine .inr ⟨s!"master returned invalid user hashes: {reason}", ?_, ?_⟩
        · simp only [validateUserHashes, checked]
        · refine .inr (.inr ⟨users, decoded, ?_⟩)
          by_contra sane
          push Not at sane
          have passed := valid.mpr ⟨fun hash mem => ⟨sane.1 hash mem, by simp⟩, sane.2⟩
          cases passed
      | ok =>
        obtain ⟨formed, distinct⟩ := valid.mp checked
        refine .inl ⟨users, ?_, status, rfl, ?_⟩
        · simp only [validateUserHashes, checked]
        · rintro (bad | bad | ⟨users', found, bad⟩)
          · exact bad status
          · rw [decoded] at bad
            cases bad
          · grind
  · rw [if_pos status]
    exact .inr ⟨_, rfl, .inl status⟩

end TrojanGo.NodeSync
