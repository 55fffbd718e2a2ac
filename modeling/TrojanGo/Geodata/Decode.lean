import TrojanGo.Lib.Protobuf
import TrojanGo.Tunnel.Address

/-!
# Scanning geodata files

`EmitBytes` looks for an entry without decoding the others. Lengths are taken from the file as
they are: a slice is made of any length, and an offset is computed from it in 64 bits.
-/
namespace TrojanGo.Geodata

open Lib List

/-- What the scan uses from the platform. -/
structure Platform where
  /-- the largest slice that can be made -/
  maxAlloc : Nat
  /-- the most that one read of a file gives -/
  maxRead : Nat
  /-- the largest offset that `Seek` accepts -/
  maxOffset : Nat
  /-- the runes of a string, each replaced by one that stands for its different cases -/
  fold : Bytes → List Nat
  maxAlloc_pos : 0 < maxAlloc
  maxRead_pos : 0 < maxRead
  maxAlloc_lt : maxAlloc < 2 ^ 63
  maxOffset_lt : maxOffset < 2 ^ 63

variable (env : Platform)

/-- `strings.EqualFold`. -/
def Platform.equalFold (s t : Bytes) : Bool := env.fold s = env.fold t

/-! ### Files -/

/-- An open file. A directory can be opened too, but not read. -/
structure File where
  content : Bytes
  pos : Nat := 0
  readable : Bool := true

inductive ReadError where
  | eof
  | other
  deriving DecidableEq

def File.read (f : File) (n : Nat) : Except ReadError Bytes × File :=
  if n = 0 then (.ok [], f)
  else if ¬ f.readable then (.error .other, f)
  else if f.content.length ≤ f.pos then (.error .eof, f)
  else
    let bytes := (f.content.drop f.pos).take (min n env.maxRead)
    (.ok bytes, { f with pos := f.pos + bytes.length })

/-- `Seek` from the current position. The scan does not look at its error, which leaves the
position as it is. -/
def File.seek (f : File) (offset : Int) : File :=
  let target := f.pos + offset
  if 0 ≤ target ∧ target ≤ env.maxOffset then { f with pos := target.toNat } else f

/-- A result of 64-bit arithmetic. -/
def int64 (n : Int) : Int := n.bmod (2 ^ 64)

/-! ### The scan -/

inductive ScanError where
  | failedToReadBytes
  | failedToReadExpectedLenBytes
  | invalidGeodataFile
  | invalidGeodataVarintLength
  | codeNotFound
  deriving DecidableEq

/-- The variables of the loop. -/
structure Scan where
  file : File
  count : Nat := 1
  isInner : Bool := false
  tempContainer : Bytes := []
  advancedN : Nat := 1
  geoDataVarintLength : Nat := 0
  codeVarintLength : Nat := 0
  varintLenByteLen : Nat := 0

inductive Emitted where
  | returned (result : Except ScanError Bytes)
  | panicked

inductive Step where
  | next (s : Scan)
  | ended (e : Emitted)

def Step.fail (e : ScanError) : Step := .ended (.returned (.error e))

/-- A length has been read, first that of the entry and then that of its code. -/
def Scan.lengthRead (s : Scan) (lenVarint n : Nat) : Scan :=
  if ¬ s.isInner then
    { s with
      tempContainer := [], isInner := true, geoDataVarintLength := lenVarint
      advancedN := 1, count := s.count + 1 }
  else
    { s with
      tempContainer := [], isInner := false, codeVarintLength := lenVarint
      varintLenByteLen := n, advancedN := lenVarint, count := s.count + 1 }

/-- The bytes of a length are collected until one does not ask for more. -/
def Scan.length (s : Scan) (b : UInt8) (container : Bytes) : Step :=
  let tempContainer := s.tempContainer ++ container
  if 127 < b then .next { s with tempContainer := tempContainer, advancedN := 1 }
  else
    match Protobuf.consumeVarint tempContainer with
    | .error _ => .fail .invalidGeodataVarintLength
    | .ok (lenVarint, n) => .next (s.lengthRead lenVarint n)

/-- The body of the loop, once the container is filled. -/
def Scan.switch (code : Bytes) (s : Scan) (container : Bytes) : Step :=
  match s.count, container with
  | 1, b :: _ | 3, b :: _ =>
    if b ≠ 10 then .fail .invalidGeodataFile
    else .next { s with advancedN := 1, count := s.count + 1 }
  | 2, b :: _ | 4, b :: _ => s.length b container
  | 1, [] | 2, [] | 3, [] | 4, [] => .ended .panicked
  | 5, _ =>
    if env.equalFold container code then
      let offset := int64 (-(1 + s.varintLenByteLen + s.codeVarintLength))
      .next { s with
        count := s.count + 1, file := s.file.seek env offset
        advancedN := s.geoDataVarintLength }
    else
      let offset :=
        int64 (s.geoDataVarintLength - s.codeVarintLength - s.varintLenByteLen - 1)
      .next { s with count := 1, file := s.file.seek env offset, advancedN := 1 }
  | 6, _ => .ended (.returned (.ok container))
  | _, _ => .next s

/-- One round of the loop. -/
def Scan.step (code : Bytes) (s : Scan) : Step :=
  if env.maxAlloc < s.advancedN then .ended .panicked
  else
    match s.file.read env s.advancedN with
    | (.error .eof, _) => .fail .codeNotFound
    | (.error .other, _) => .fail .failedToReadBytes
    | (.ok container, file) =>
      if container.length ≠ s.advancedN then .fail .failedToReadExpectedLenBytes
      else { s with file := file }.switch env code container

/-- So many rounds at most. -/
def run (code : Bytes) : Nat → Scan → Option Emitted
  | 0, _ => none
  | k + 1, s =>
    match s.step env code with
    | .next s => run code k s
    | .ended e => some e

/-- More rounds than any scan of the file takes that comes to an end. -/
def File.rounds (f : File) : Nat := (f.content.length + 1) * (2 * f.content.length + 6)

/-- The result of the scan, unless it goes on for ever. -/
def emitBytes (f : File) (code : Bytes) : Option Emitted :=
  run env code f.rounds { file := f }

/-! ### The scan, entry by entry -/

/-- What the scan reads of an entry before its code. -/
structure Header where
  /-- the length of the entry -/
  length : Nat
  /-- where the entry begins, behind its length -/
  start : Nat
  codeLength : Nat
  /-- how many bytes the length of the code takes -/
  lenBytes : Nat

def Header.codeStart (h : Header) : Nat := h.start + 1 + h.lenBytes

/-- A length, and how many bytes it takes. -/
def readLength (taken : Bytes) : Bytes → Except ScanError (Nat × Nat)
  | [] => .error .codeNotFound
  | b :: rest =>
    if 127 < b then readLength (taken ++ [b]) rest
    else
      match Protobuf.consumeVarint (taken ++ [b]) with
      | .error _ => .error .invalidGeodataVarintLength
      | .ok result => .ok result

variable (content : Bytes)

/-- A tag at this position, and the length behind it. -/
def readTag (p : Nat) : Except ScanError (Nat × Nat) :=
  match content.drop p with
  | [] => .error .codeNotFound
  | b :: rest => if b ≠ 10 then .error .invalidGeodataFile else readLength [] rest

def readHeader (p : Nat) : Except ScanError Header := do
  let (length, lengthBytes) ← readTag content p
  let start := p + 1 + lengthBytes
  let (codeLength, lenBytes) ← readTag content start
  return { length, start, codeLength, lenBytes }

/-- An entry is the last one that is looked at, or leads to a next one. -/
inductive Turn where
  | next (p : Nat)
  | ended (e : Emitted)

def Turn.fail (e : ScanError) : Turn := .ended (.returned (.error e))

/-- Where the scan goes on behind an entry that does not match. -/
def Header.skip (h : Header) : Nat :=
  let after := h.codeStart + h.codeLength
  let target := after + int64 (h.length - h.codeLength - h.lenBytes - 1)
  if 0 ≤ target ∧ target ≤ env.maxOffset then target.toNat else after

def Header.code (h : Header) (content : Bytes) : Bytes :=
  (content.drop h.codeStart).take h.codeLength

/-- One read does not give so many bytes from here. -/
def Cut (q n : Nat) : Prop :=
  content.length < q + n ∨ env.maxRead < n

instance  (q n : Nat) : Decidable (Cut env content q n) :=
  inferInstanceAs (Decidable (_ ∨ _))

def Header.turn (content code : Bytes) (h : Header) : Turn :=
  if env.maxAlloc < h.codeLength then .ended .panicked
  else if h.codeLength ≠ 0 ∧ content.length ≤ h.codeStart then .fail .codeNotFound
  else if Cut env content h.codeStart h.codeLength then .fail .failedToReadExpectedLenBytes
  else if env.equalFold (h.code content) code then
    if env.maxAlloc < h.length then .ended .panicked
    else if Cut env content h.start h.length then .fail .failedToReadExpectedLenBytes
    else .ended (.returned (.ok ((content.drop h.start).take h.length)))
  else .next (h.skip env)

/-- What the scan makes of the entry at this position. -/
def entry (content code : Bytes) (p : Nat) : Turn :=
  match readHeader content p with
  | .error e => .fail e
  | .ok h => h.turn env content code

/-! ### Rounds of the loop -/

section Rounds

variable {env : Platform} {code content : Bytes} {p : Nat} {s : Scan}

theorem run_next {s' : Scan} (stepped : s.step env code = .next s') (m : Nat) :
    run env code (m + 1) s = run env code m s' := by
  rw [run, stepped]

theorem run_ended {e : Emitted} (stepped : s.step env code = .ended e) (m : Nat) :
    run env code (m + 1) s = some e := by
  rw [run, stepped]

variable (env) (code)

/-- The container of a single byte. -/
theorem step_byte (here : s.file = ⟨content, p, true⟩) (one : s.advancedN = 1) :
    s.step env code =
      match content.drop p with
      | [] => .fail .codeNotFound
      | b :: _ => { s with file := ⟨content, p + 1, true⟩ }.switch env code [b] := by
  have room : ¬ env.maxAlloc < 1 := Nat.not_lt.mpr env.maxAlloc_pos
  have whole : min 1 env.maxRead = 1 := Nat.min_eq_left env.maxRead_pos
  simp only [Scan.step, one, if_neg room, here, File.read, Nat.one_ne_zero, if_false, whole]
  cases rest : content.drop p with
  | nil =>
    have past : content.length ≤ p := drop_eq_nil_iff.mp rest
    simp [past]
  | cons b rest =>
    have before : ¬ content.length ≤ p := fun past => by
      rw [drop_eq_nil_iff.mpr past] at rest
      cases rest
    simp [before]

variable {taken : Bytes}

theorem continues_snoc {b : UInt8} (more : ∀ b ∈ taken, 127 < b) (large : 127 < b) :
    ∀ b' ∈ taken ++ [b], 127 < b' := by
  grind [mem_singleton.mp]

theorem readLength_length {rest : Bytes} (more : ∀ b ∈ taken, 127 < b) {v n : Nat}
    (read : readLength taken rest = .ok (v, n)) :
    taken.length < n ∧ n ≤ taken.length + rest.length := by
  induction rest generalizing taken with
  | nil => cases read
  | cons b rest ih =>
    simp only [readLength] at read
    split at read
    next large => grind
    next small =>
      split at read
      · cases read
      next result consumed =>
        cases read
        have length := Protobuf.consumeVarint_length (.intro more small) consumed
        simp only [length, length_append, length_cons, length_nil]
        omega

theorem switch_length (atLength : s.count = 2 ∨ s.count = 4) (b : UInt8) :
    s.switch env code [b] = s.length b [b] := by
  rcases atLength with here | here <;> simp [Scan.switch, here]

theorem switch_tag (atTag : s.count = 1 ∨ s.count = 3) (b : UInt8) :
    s.switch env code [b] = if b ≠ 10 then .fail .invalidGeodataFile
      else .next { s with advancedN := 1, count := s.count + 1 } := by
  rcases atTag with here | here <;> simp [Scan.switch, here]

/-- The rounds that read a length. -/
theorem run_length (atLength : s.count = 2 ∨ s.count = 4) (here : s.file = ⟨content, p, true⟩)
    (one : s.advancedN = 1) (held : s.tempContainer = taken) (more : ∀ b ∈ taken, 127 < b) :
    ∃ k ≤ (content.drop p).length + 1, ∀ m, run env code (m + k) s =
      match readLength taken (content.drop p) with
      | .error e => some (.returned (.error e))
      | .ok (v, n) => run env code m
        ({ s with file := ⟨content, p + (n - taken.length), true⟩ }.lengthRead v n) := by
  -- along the bytes that are left, each of which takes a round
  generalize rest : content.drop p = bytes
  induction bytes generalizing p s taken with
  | nil =>
    refine ⟨1, by omega, fun m => run_ended ?_ m⟩
    rw [step_byte env code here one, rest]
    rfl
  | cons b bytes ih =>
    have stepped := step_byte env code here one
    have onward : content.drop (p + 1) = bytes := by
      rw [← drop_drop, rest, drop_one, tail_cons]
    rw [rest] at stepped
    simp only at stepped
    rw [switch_length env code (by exact atLength)] at stepped
    by_cases large : 127 < b
    · simp only [Scan.length, held, if_pos large] at stepped
      obtain ⟨k, bound, ran⟩ := @ih (p + 1)
        { s with file := ⟨content, p + 1, true⟩, tempContainer := taken ++ [b], advancedN := 1 }
        (taken ++ [b]) atLength rfl rfl rfl (continues_snoc more large) onward
      refine ⟨k + 1, by simpa using bound, fun m => ?_⟩
      rw [← Nat.add_assoc, run_next stepped, ran m, readLength, if_pos large]
      cases read : readLength (taken ++ [b]) bytes with
      | error e => rfl
      | ok result =>
        obtain ⟨v, n⟩ := result
        have length := (readLength_length (continues_snoc more large) read).1
        simp only [length_append, length_singleton] at length ⊢
        have place : p + 1 + (n - (taken.length + 1)) = p + (n - taken.length) := by omega
        rw [place]
        simp [Scan.lengthRead]
    · simp only [Scan.length, held, if_neg large] at stepped
      refine ⟨1, by omega, fun m => ?_⟩
      rw [readLength, if_neg large]
      cases consumed : Protobuf.consumeVarint (taken ++ [b]) with
      | error e =>
        rw [consumed] at stepped
        exact run_ended stepped m
      | ok result =>
        obtain ⟨v, n⟩ := result
        rw [consumed] at stepped
        have length := Protobuf.consumeVarint_length (.intro more large) consumed
        simp only [length_append, length_singleton] at length
        have place : p + (n - taken.length) = p + 1 := by omega
        simp only
        rw [place]
        exact run_next stepped m

/-- The rounds that read a tag and a length. -/
theorem run_tag (atTag : s.count = 1 ∨ s.count = 3) (here : s.file = ⟨content, p, true⟩)
    (one : s.advancedN = 1) (held : s.tempContainer = []) :
    ∃ k ≤ content.length + 2, ∀ m, run env code (m + k) s =
      match readTag content p with
      | .error e => some (.returned (.error e))
      | .ok (v, n) => run env code m
        ({ s with file := ⟨content, p + 1 + n, true⟩, count := s.count + 1 }.lengthRead v n) := by
  have stepped := step_byte env code here one
  cases rest : content.drop p with
  | nil =>
    rw [rest] at stepped
    refine ⟨1, by omega, fun m => ?_⟩
    simp only [readTag, rest]
    exact run_ended stepped m
  | cons b bytes =>
    have onward : content.drop (p + 1) = bytes := by
      rw [← drop_drop, rest, drop_one, tail_cons]
    rw [rest] at stepped
    simp only at stepped
    rw [switch_tag env code (by exact atTag)] at stepped
    by_cases tag : b = 10
    · rw [if_neg (by simp [tag])] at stepped
      let s' : Scan := { s with
        file := ⟨content, p + 1, true⟩, advancedN := 1, count := s.count + 1 }
      have atLength : s'.count = 2 ∨ s'.count = 4 := by grind
      obtain ⟨k, bound, ran⟩ := run_length env code (s := s') atLength rfl rfl held
        (by simp)
      refine ⟨k + 1, ?_, fun m => ?_⟩
      · have := length_drop (i := p + 1) (l := content)
        omega
      · rw [← Nat.add_assoc, run_next stepped, ran m, onward, readTag, rest]
        simp only [tag, ne_eq, not_true, if_false]
        cases readLength [] bytes with
        | error e => rfl
        | ok result => simp [s', Scan.lengthRead]
    · rw [if_pos tag] at stepped
      refine ⟨1, by omega, fun m => ?_⟩
      simp only [readTag, rest, ne_eq, tag, not_false_iff, if_true]
      exact run_ended stepped m

/-- The scan at the start of an entry. The lengths of the entry before are still there. -/
def startAt (content : Bytes) (p length codeLength lenBytes : Nat) : Scan where
  file := ⟨content, p, true⟩
  geoDataVarintLength := length
  codeVarintLength := codeLength
  varintLenByteLen := lenBytes

/-- The scan in front of the code of an entry. -/
def Header.atCode (content : Bytes) (h : Header) : Scan where
  file := ⟨content, h.codeStart, true⟩
  count := 5
  advancedN := h.codeLength
  geoDataVarintLength := h.length
  codeVarintLength := h.codeLength
  varintLenByteLen := h.lenBytes

theorem run_header (content : Bytes) (p length codeLength lenBytes : Nat) :
    ∃ k ≤ 2 * content.length + 4, ∀ m,
      run env code (m + k) (startAt content p length codeLength lenBytes) =
        match readHeader content p with
        | .error e => some (.returned (.error e))
        | .ok h => run env code m (h.atCode content) := by
  obtain ⟨k, bound, ran⟩ := run_tag env code
    (s := startAt content p length codeLength lenBytes) (.inl rfl) rfl rfl rfl
  cases first : readTag content p with
  | error e =>
    refine ⟨k, by omega, fun m => ?_⟩
    rw [ran m, first, readHeader, first]
    rfl
  | ok result =>
    obtain ⟨v, n⟩ := result
    let s : Scan := { startAt content (p + 1 + n) v codeLength lenBytes with
      count := 3, isInner := true }
    obtain ⟨k', bound', ran'⟩ := run_tag env code (s := s) (.inr rfl) rfl rfl rfl
    refine ⟨k' + k, by omega, fun m => ?_⟩
    have next := ran (m + k')
    rw [first] at next
    rw [← Nat.add_assoc]
    refine (next.trans (ran' m)).trans ?_
    simp only [readHeader, first]
    cases second : readTag content (p + 1 + n) with
    | error e =>
      simp only [bind, Except.bind, second]
    | ok result =>
      simp only [bind, Except.bind, second]
      rfl

theorem int64_self {n : Int} (lower : -2 ^ 63 ≤ n) (upper : n < 2 ^ 63) : int64 n = n := by
  unfold int64
  rw [Int.bmod_eq_of_le] <;> omega

theorem read_eq (content : Bytes) (q n : Nat) :
    (File.mk content q true).read env n =
      if n ≠ 0 ∧ content.length ≤ q then (.error .eof, ⟨content, q, true⟩)
      else (.ok ((content.drop q).take (min n env.maxRead)),
        ⟨content, q + ((content.drop q).take (min n env.maxRead)).length, true⟩) := by
  grind [File.read]

theorem length_ne_iff {q n : Nat} (inside : q ≤ content.length) :
    ((content.drop q).take (min n env.maxRead)).length ≠ n ↔ Cut env content q n := by
  simp only [Cut, length_take, length_drop]
  omega

variable (h : Header)

/-- The scan is back at the start of the entry, which it reads. -/
theorem step_body (inside : h.start < content.length) : (Scan.step env code { h.atCode content with
      file := ⟨content, h.start, true⟩, count := 6, advancedN := h.length }) =
      if env.maxAlloc < h.length then .ended .panicked
      else if Cut env content h.start h.length then .fail .failedToReadExpectedLenBytes
      else .ended (.returned (.ok ((content.drop h.start).take h.length))) := by
  have before : ¬ (h.length ≠ 0 ∧ content.length ≤ h.start) := by omega
  simp only [Scan.step, read_eq env content h.start, if_neg before,
    length_ne_iff env (Nat.le_of_lt inside)]
  split
  · rfl
  split
  · rfl
  next whole =>
    rw [Nat.min_eq_left (Nat.not_lt.mp (not_or.mp whole).2)]
    rfl

theorem step_code (inside : h.codeStart ≤ content.length) : (h.atCode content).step env code =
      if env.maxAlloc < h.codeLength then .ended .panicked
      else if h.codeLength ≠ 0 ∧ content.length ≤ h.codeStart then .fail .codeNotFound
      else if Cut env content h.codeStart h.codeLength then .fail .failedToReadExpectedLenBytes
      else Scan.switch env code { h.atCode content with
        file := ⟨content, h.codeStart + h.codeLength, true⟩ } (h.code content) := by
  simp only [Scan.step, Header.atCode, read_eq env content h.codeStart]
  split
  · rfl
  by_cases past : h.codeLength ≠ 0 ∧ content.length ≤ h.codeStart
  · simp only [if_pos past]
  simp only [if_neg past, length_ne_iff env inside]
  split
  · rfl
  next whole =>
    obtain ⟨long, once⟩ := not_or.mp whole
    rw [Nat.min_eq_left (Nat.not_lt.mp once)]
    grind [Header.code]

theorem seek_back (inside : h.codeStart + h.codeLength ≤ content.length)
    (placed : content.length ≤ env.maxOffset) :
    (File.mk content (h.codeStart + h.codeLength) true).seek env
      (int64 (-(1 + h.lenBytes + h.codeLength))) = ⟨content, h.start, true⟩ := by
  have offsets := env.maxOffset_lt
  unfold Header.codeStart at inside
  rw [int64_self (by omega) (by omega)]
  have target : ((h.codeStart + h.codeLength : Nat) : Int) +
      -(1 + h.lenBytes + h.codeLength) = h.start := by
    unfold Header.codeStart
    omega
  simp only [File.seek, target]
  rw [if_pos (by omega)]
  rfl

theorem seek_skip :
    (File.mk content (h.codeStart + h.codeLength) true).seek env
      (int64 (h.length - h.codeLength - h.lenBytes - 1)) = ⟨content, h.skip env, true⟩ := by
  unfold File.seek Header.skip
  push_cast
  split <;> rfl

/-- Whether the code is found, what it is compared with, and where the scan goes then. -/
theorem run_code (inside : h.codeStart ≤ content.length) (placed : content.length ≤ env.maxOffset) :
    ∃ k ≤ 2, 0 < k ∧ ∀ m, run env code (m + k) (h.atCode content) =
      match h.turn env content code with
      | .ended e => some e
      | .next q => run env code m (startAt content q h.length h.codeLength h.lenBytes) := by
  have stepped := step_code env code h inside
  unfold Header.turn
  by_cases large : env.maxAlloc < h.codeLength
  · rw [if_pos large] at stepped ⊢
    exact ⟨1, by omega, by omega, run_ended stepped⟩
  rw [if_neg large] at stepped ⊢
  by_cases past : h.codeLength ≠ 0 ∧ content.length ≤ h.codeStart
  · rw [if_pos past] at stepped ⊢
    exact ⟨1, by omega, by omega, run_ended stepped⟩
  rw [if_neg past] at stepped ⊢
  by_cases short : Cut env content h.codeStart h.codeLength
  · rw [if_pos short] at stepped ⊢
    exact ⟨1, by omega, by omega, run_ended stepped⟩
  rw [if_neg short] at stepped ⊢
  have long := (not_or.mp short).1
  by_cases matched : env.equalFold (h.code content) code
  · have back : (h.atCode content).step env code = .next { h.atCode content with
        file := ⟨content, h.start, true⟩, count := 6, advancedN := h.length } := by
      rw [stepped, ← seek_back env h (by omega) placed]
      exact if_pos matched
    have begins : h.start < content.length := by
      unfold Header.codeStart at inside
      omega
    have body := step_body env code h begins
    rw [if_pos matched]
    refine ⟨2, Nat.le_refl _, by omega, fun m => ?_⟩
    rw [show m + 2 = m + 1 + 1 from rfl, run_next back]
    by_cases larger : env.maxAlloc < h.length
    · rw [if_pos larger] at body ⊢
      exact run_ended body m
    rw [if_neg larger] at body ⊢
    by_cases cut : Cut env content h.start h.length
    · rw [if_pos cut] at body ⊢
      exact run_ended body m
    · rw [if_neg cut] at body ⊢
      exact run_ended body m
  · have skipped : (h.atCode content).step env code =
        .next (startAt content (h.skip env) h.length h.codeLength h.lenBytes) := by
      rw [stepped, startAt, ← seek_skip]
      exact if_neg matched
    rw [if_neg matched]
    exact ⟨1, by omega, by omega, run_next skipped⟩

end Rounds

end TrojanGo.Geodata
