import Mathlib.Data.List.Basic
import Mathlib.Data.List.Infix
import Mathlib.Data.List.TakeWhile
import TrojanGo.Lib.Prog

/-!
# Readers

A read returns a non-empty beginning of the content that is still to come, of a size that the
reader chooses, or reports the end. Reading until a request is filled, and reading on and on, then
give results that do not depend on the pieces. A parser is a program over reads.
-/
namespace TrojanGo.Lib

open List

inductive ReadError where
  | eof
  /-- the reader refuses to go on -/
  | refused
  deriving DecidableEq

/-- One read with a buffer of the given size; it returns elements, an error, or both. -/
abbrev Read (ρ α : Type) := ρ → Nat → (List α × Option ReadError) × ρ

namespace Read

variable {α ρ : Type} (read : Read ρ α)

/-- A reader that serves at least `k` more elements returns a beginning of its content. -/
structure Lawful (content : ρ → List α) (serves : Nat → ρ → Prop) : Prop where
  fewer : ∀ k k' r, k' ≤ k → serves k r → serves k' r
  ends : ∀ k r n, serves k r → 0 < n → content r = [] →
    (read r n).1 = ([], some .eof) ∧ content (read r n).2 = [] ∧ serves k (read r n).2
  step : ∀ k r n, serves k r → 0 < n → n ≤ k → content r ≠ [] →
    ∃ bytes, (read r n).1 = (bytes, none) ∧ bytes ≠ [] ∧ bytes.length ≤ n ∧
      content r = bytes ++ content (read r n).2 ∧ serves (k - bytes.length) (read r n).2

/-- `io.ReadFull`: read until the request is filled. Every read of a lawful reader returns
something, so as many reads as elements are enough. -/
def full : (fuel : Nat) → ρ → (n : Nat) → Except ReadError (List α) × ρ
  | _, r, 0 => (.ok [], r)
  | 0, r, _ + 1 => (.error .eof, r)
  | fuel + 1, r, n + 1 =>
    match read r (n + 1) with
    | ((bytes, err), r') =>
      if n + 1 ≤ bytes.length then (.ok bytes, r')
      else
        match err with
        | some e => (.error e, r')
        | none =>
          match full fuel r' (n + 1 - bytes.length) with
          | (.ok rest, r'') => (.ok (bytes ++ rest), r'')
          | (.error e, r'') => (.error e, r'')

/-- One read after another, with buffers of these sizes. -/
def many : ρ → List Nat → List α × ρ
  | r, [] => ([], r)
  | r, n :: ns =>
    let got := read r n
    let more := many got.2 ns
    (got.1.1 ++ more.1, more.2)

/-- What a request of `n` elements of a list gives. -/
def filled (n : Nat) (l : List α) : Except ReadError (List α) :=
  if n ≤ l.length then .ok (l.take n) else .error .eof

/-- What a read returns, with or without an error, is the beginning of what was to come. This is
all that can be said of a reader that may fail at any time. -/
def Faithful (content : ρ → List α) : Prop :=
  ∀ r n, content r = (read r n).1.1 ++ content (read r n).2

variable {read : Read ρ α} {content : ρ → List α} {serves : Nat → ρ → Prop}

theorem Faithful.many (faithful : read.Faithful content) (sizes : List Nat) (r : ρ) :
    content r = (read.many r sizes).1 ++ content (read.many r sizes).2 := by
  induction sizes generalizing r with
  | nil => simp [Read.many]
  | cons n sizes ih =>
    rw [faithful r n, ih (read r n).2]
    simp [Read.many]

section

variable (lawful : read.Lawful content serves)

include lawful

theorem full_lawful {fuel k n : Nat} {r : ρ} (enough : n ≤ (content r).length) (ready : serves k r)
    (room : n ≤ k) (fueled : n ≤ fuel) :
    ∃ r', read.full fuel r n = (.ok ((content r).take n), r') ∧
      content r' = (content r).drop n ∧ serves (k - n) r' := by
  induction fuel generalizing k n r with
  | zero =>
    obtain rfl : n = 0 := by omega
    exact ⟨r, by simp [full], by simp, by simpa using ready⟩
  | succ fuel ih =>
    cases n with
    | zero => exact ⟨r, by simp [full], by simp, by simpa using ready⟩
    | succ n =>
      have more : content r ≠ [] := by
        intro empty
        simp [empty] at enough
      obtain ⟨bytes, ran, filled, short, split, ready'⟩ :=
        lawful.step k r (n + 1) ready (by omega) room more
      rcases step : read r (n + 1) with ⟨got, r'⟩
      simp only [step] at ran split ready'
      subst ran
      have positive : 0 < bytes.length := length_pos_of_ne_nil filled
      rw [split, length_append] at enough
      rw [split]
      by_cases all : n + 1 ≤ bytes.length
      · grind [full]
      · obtain ⟨r'', ran, rest, ready''⟩ := @ih (k - bytes.length) (n + 1 - bytes.length) r'
          (by omega) ready' (by omega) (by omega)
        refine ⟨r'', ?_, ?_, ?_⟩
        · simp only [full, step, if_neg all, ran]
          rw [take_append, take_of_length_le (l := bytes) (by omega)]
        · rw [rest, drop_append, drop_of_length_le (l := bytes) (by omega),
            nil_append]
        · rwa [show k - (n + 1) = k - bytes.length - (n + 1 - bytes.length) by omega]

/-- A step of a reader that serves any number of elements. -/
theorem Lawful.endless {r : ρ} {n : Nat} (ready : ∀ k, serves k r) (positive : 0 < n)
    (more : content r ≠ []) :
    ∃ bytes, (read r n).1 = (bytes, none) ∧ bytes ≠ [] ∧ bytes.length ≤ n ∧
      content r = bytes ++ content (read r n).2 ∧ ∀ k, serves k (read r n).2 := by
  obtain ⟨bytes, ran, filled, short, split, -⟩ :=
    lawful.step n r n (ready n) positive (le_refl n) more
  refine ⟨bytes, ran, filled, short, split, fun k => ?_⟩
  obtain ⟨bytes', -, -, short', -, served⟩ :=
    lawful.step (n + k) r n (ready _) positive (by omega) more
  exact lawful.fewer _ k _ (by omega) served

/-- What is left is too short for the request: all of it is read, and then the end. -/
theorem full_short {fuel n : Nat} {r : ρ} (short : (content r).length < n) (ready : ∀ k, serves k r)
    (fueled : n ≤ fuel) :
    ∃ r', read.full fuel r n = (.error .eof, r') ∧ content r' = [] ∧ ∀ k, serves k r' := by
  induction fuel generalizing n r with
  | zero => omega
  | succ fuel ih =>
    obtain ⟨n, rfl⟩ : ∃ m, n = m + 1 := ⟨n - 1, by omega⟩
    by_cases nothing : content r = []
    · have ended := fun k => lawful.ends k r (n + 1) (ready k) (by omega) nothing
      refine ⟨(read r (n + 1)).2, ?_, (ended 0).2.1, fun k => (ended k).2.2⟩
      simp [full, (ended 0).1]
    obtain ⟨bytes, ran, filled, -, split, ready'⟩ :=
      lawful.endless (n := n + 1) ready (by omega) nothing
    rcases step : read r (n + 1) with ⟨got, r'⟩
    simp only [step] at ran split ready'
    subst ran
    have positive : 0 < bytes.length := length_pos_of_ne_nil filled
    rw [split, length_append] at short
    obtain ⟨r'', ran, rest, ready''⟩ :=
      @ih (n + 1 - bytes.length) r' (by omega) ready' (by omega)
    have part : ¬ n + 1 ≤ bytes.length := by omega
    exact ⟨r'', by simp only [full, step, if_neg part, ran], rest, ready''⟩

theorem full_endless {r : ρ} (ready : ∀ k, serves k r) (n : Nat) :
    ∃ r', read.full n r n = (filled n (content r), r') ∧ content r' = (content r).drop n ∧
      ∀ k, serves k r' := by
  unfold filled
  split
  next enough =>
    obtain ⟨r', ran, rest, -⟩ := full_lawful lawful enough (ready n) le_rfl le_rfl
    refine ⟨r', ran, rest, fun k => ?_⟩
    -- a reader that serves more than this request returns the same
    obtain ⟨r'', ran', -, served⟩ := full_lawful lawful enough (ready (n + k)) (by omega) le_rfl
    cases ran.symm.trans ran'
    exact lawful.fewer _ k _ (by omega) served
  next short =>
    obtain ⟨r', ran, rest, ready'⟩ := full_short lawful (Nat.lt_of_not_le short) ready le_rfl
    exact ⟨r', ran, by rw [rest, drop_of_length_le (by omega)], ready'⟩

/-- Reading on returns the content in order, and all of it once there were enough reads. -/
theorem many_lawful {sizes : List Nat} {r : ρ} (positive : ∀ n ∈ sizes, 0 < n)
    (ready : ∀ k, serves k r) :
    (read.many r sizes).1 ++ content (read.many r sizes).2 = content r ∧
      ((content r).length ≤ sizes.length → content (read.many r sizes).2 = []) := by
  induction sizes generalizing r with
  | nil => simp [many]
  | cons n sizes ih =>
    obtain ⟨here, positive⟩ := forall_mem_cons.mp positive
    by_cases nothing : content r = []
    · have ended := fun k => lawful.ends k r n (ready k) here nothing
      obtain ⟨rest, drained⟩ := ih positive fun k => (ended k).2.2
      obtain ⟨ran, empty, -⟩ := ended 0
      rw [empty] at rest drained
      constructor
      · simpa [many, ran, nothing] using rest
      · intro _
        simpa [many] using drained (by simp)
    · obtain ⟨bytes, ran, filled, -, split, ready'⟩ := lawful.endless ready here nothing
      obtain ⟨rest, drained⟩ := ih positive ready'
      constructor
      · simp only [many, ran]
        rw [append_assoc, rest, split]
      · intro enough
        apply drained
        have := length_pos_of_ne_nil filled
        rw [split, length_append, length_cons] at enough
        omega

end

end Read

/-! ### Segments -/

/-- A stream that arrives in given pieces; a read returns at most the rest of one piece. -/
structure Segments (α : Type) where
  pieces : List (List α)
  filled : [] ∉ pieces

namespace Segments

variable {α : Type}

def content (s : Segments α) : List α := s.pieces.flatten

/-- All in one piece. -/
def whole : List α → Segments α
  | [] => ⟨[], by simp⟩
  | first :: rest => ⟨[first :: rest], by simp⟩

@[simp] theorem content_whole (l : List α) : (whole l).content = l := by
  cases l <;> simp [whole, content]

def read : Read (Segments α) α
  | ⟨[], filled⟩, _ => (([], some .eof), ⟨[], filled⟩)
  | ⟨piece :: pieces, filled⟩, n =>
    if rest : piece.drop n = [] then
      ((piece, none), ⟨pieces, fun inside => filled (List.mem_cons_of_mem _ inside)⟩)
    else
      ((piece.take n, none), ⟨piece.drop n :: pieces, by
        intro inside
        rcases List.mem_cons.mp inside with here | later
        · exact rest here.symm
        · exact filled (List.mem_cons_of_mem _ later)⟩)

theorem lawful : Read.Lawful read (content (α := α)) fun _ _ => True where
  fewer _ _ _ _ _ := trivial
  ends k s n _ _ empty := by
    obtain ⟨pieces, filled⟩ := s
    cases pieces with
    | nil => exact ⟨rfl, rfl, trivial⟩
    | cons piece pieces =>
      have nothing : piece = [] := (append_eq_nil_iff.mp empty).1
      exact (filled (by simp [nothing])).elim
  step k s n _ positive _ more := by
    obtain ⟨pieces, filled⟩ := s
    cases pieces with
    | nil => exact (more rfl).elim
    | cons piece pieces =>
      have something : piece ≠ [] := fun nothing => filled (by simp [nothing])
      by_cases rest : piece.drop n = []
      · have short : piece.length ≤ n := by simpa using rest
        refine ⟨piece, by simp [read, rest], something, short, ?_, trivial⟩
        simp [read, rest, content]
      · refine ⟨piece.take n, by simp [read, rest], ?_, length_take_le n piece, ?_, trivial⟩
        · simpa [something] using positive.ne'
        · simp only [read, rest, dif_neg, not_false_iff, content, flatten_cons]
          rw [← append_assoc, take_append_drop]

end Segments

/-! ### Lists -/

section List

variable {α : Type}

/-- The reader of a list returns as much as it is asked for. -/
def Read.list : Read (List α) α
  | [], _ => (([], some .eof), [])
  | l@(_ :: _), n => ((l.take n, none), l.drop n)

theorem Read.list_lawful : Read.Lawful (Read.list (α := α)) id fun _ _ => True where
  fewer _ _ _ _ _ := trivial
  ends k l n _ _ empty := by
    obtain rfl : l = [] := empty
    exact ⟨rfl, rfl, trivial⟩
  step k l n _ positive _ more := by
    cases l with
    | nil => exact (more rfl).elim
    | cons first l =>
      refine ⟨(first :: l).take n, rfl, ?_, length_take_le n _, ?_, trivial⟩
      · simpa using positive.ne'
      · exact (take_append_drop n (first :: l)).symm

end List

/-! ### Reading ahead -/

/-- A reader with a buffer of fixed size in front of it. -/
structure Buffered (ρ α : Type) where
  size : Nat
  ahead : List α := []
  source : ρ

namespace Buffered

variable {ρ α : Type} (inner : Read ρ α)

/-- The buffered elements first. A request of at least the size of the buffer passes it by. -/
def read : Read (Buffered ρ α) α := fun b n =>
  if b.ahead = [] then
    if b.size ≤ n then
      match inner b.source n with
      | (got, source) => (got, { b with source := source })
    else
      match inner b.source b.size with
      | ((bytes, err), source) =>
        ((bytes.take n, err), { b with ahead := bytes.drop n, source := source })
  else ((b.ahead.take n, none), { b with ahead := b.ahead.drop n })

/-- Read up to and including a delimiter. A full buffer is set aside, and what fits into the
buffer is read at once. The source returns elements or an error, not both. -/
def line [DecidableEq α] (delim : α) : (fuel : Nat) → Buffered ρ α → (aside : List α) →
    Except ReadError (List α) × Buffered ρ α
  | 0, b, _ => (.error .eof, b)
  | fuel + 1, b, aside =>
    if delim ∈ b.ahead then
      let found := b.ahead.takeWhile (· ≠ delim) ++ [delim]
      (.ok (aside ++ found), { b with ahead := b.ahead.drop found.length })
    else
      let kept := if b.size ≤ b.ahead.length then [] else b.ahead
      let aside := if b.size ≤ b.ahead.length then aside ++ b.ahead else aside
      match inner b.source (b.size - kept.length) with
      | ((_, some e), source) => (.error e, { b with ahead := kept, source := source })
      | ((bytes, none), source) =>
        line delim fuel { b with ahead := kept ++ bytes, source := source } aside

variable {inner} {content : ρ → List α} {serves : Nat → ρ → Prop}

def remaining (content : ρ → List α) (b : Buffered ρ α) : List α := b.ahead ++ content b.source

/-- The buffer reads ahead, so its source has to serve any number of elements. -/
def Ready (serves : Nat → ρ → Prop) (b : Buffered ρ α) : Prop :=
  0 < b.size ∧ ∀ k, serves k b.source

theorem lawful (inside : inner.Lawful content serves) :
    Read.Lawful (read inner) (remaining content) fun _ => Ready serves where
  fewer _ _ _ _ ready := ready
  ends k b n ready positive empty := by
    obtain ⟨nothing, drained⟩ := append_eq_nil_iff.mp empty
    obtain ⟨size, endless⟩ := ready
    have ended := fun n' (positive' : 0 < n') k =>
      inside.ends k b.source n' (endless k) positive' drained
    by_cases large : b.size ≤ n
    · obtain ⟨ran, still, -⟩ := ended n positive 0
      simp only [read, nothing, if_true, if_pos large]
      exact ⟨ran, by simpa [remaining] using still, size, fun k => (ended n positive k).2.2⟩
    · obtain ⟨ran, still, -⟩ := ended b.size size 0
      simp only [read, nothing, if_true, if_neg large]
      refine ⟨by simp [ran], by simp [remaining, ran, still], size, ?_⟩
      exact fun k => (ended b.size size k).2.2
  step k b n ready positive _ more := by
    obtain ⟨size, endless⟩ := ready
    by_cases nothing : b.ahead = []
    · have coming : content b.source ≠ [] := by simpa [remaining, nothing] using more
      by_cases large : b.size ≤ n
      · obtain ⟨bytes, ran, filled, short, split, endless'⟩ :=
          inside.endless endless positive coming
        simp only [read, nothing, if_true, if_pos large]
        exact ⟨bytes, ran, filled, short, by simpa [remaining, nothing] using split, size, endless'⟩
      · obtain ⟨bytes, ran, filled, short, split, endless'⟩ :=
          inside.endless endless size coming
        simp only [read, nothing, if_true, if_neg large]
        refine ⟨bytes.take n, by simp [ran], ?_, length_take_le n bytes, ?_, size, endless'⟩
        · simpa [filled] using positive.ne'
        · simp only [remaining, nothing, nil_append, split, ran]
          rw [← append_assoc, take_append_drop]
    · simp only [read, if_neg nothing]
      refine ⟨b.ahead.take n, rfl, ?_, length_take_le n b.ahead, ?_, size, endless⟩
      · simpa [nothing] using positive.ne'
      · simp only [remaining]
        rw [← append_assoc, take_append_drop]

variable {delim : α} {rest : List α}

/-- The first delimiter of the whole is the first one of a beginning that has one. -/
theorem split_first {ahead later body : List α} (absent : delim ∉ body)
    (whole : ahead ++ later = body ++ delim :: rest) (found : delim ∈ ahead) :
    ∃ tail, ahead = body ++ delim :: tail ∧ tail ++ later = rest := by
  rcases append_eq_append_iff.mp whole with ⟨missing, rfl, here⟩ | ⟨extra, rfl, there⟩
  · exact (absent (mem_append_left _ found)).elim
  · cases extra with
    | nil => exact (absent (by simpa using found)).elim
    | cons first extra => grind

theorem split_later {ahead later body : List α} (whole : ahead ++ later = body ++ delim :: rest)
    (absent : delim ∉ ahead) :
    ∃ missing, body = ahead ++ missing ∧ later = missing ++ delim :: rest := by
  rcases append_eq_append_iff.mp whole with ⟨missing, rfl, here⟩ | ⟨extra, rfl, there⟩
  · exact ⟨missing, rfl, here⟩
  · cases extra with
    | nil => exact ⟨[], by simp, by simpa using there.symm⟩
    | cons first extra => grind

theorem line_lawful [DecidableEq α] (inside : inner.Lawful content serves) {fuel : Nat}
    {b : Buffered ρ α} {aside body : List α} (ready : Ready serves b) (absent : delim ∉ body)
    (whole : remaining content b = body ++ delim :: rest)
    (fueled : (content b.source).length < fuel) :
    ∃ b', line inner delim fuel b aside = (.ok (aside ++ body ++ [delim]), b') ∧
      remaining content b' = rest ∧ Ready serves b' ∧ b'.size = b.size := by
  induction fuel generalizing b aside body with
  | zero => omega
  | succ fuel ih =>
    by_cases found : delim ∈ b.ahead
    · obtain ⟨tail, split, later⟩ := split_first absent whole found
      have first : b.ahead.takeWhile (· ≠ delim) = body := by
        rw [split, takeWhile_append_of_pos (by
          intro x inside
          simpa using fun same : x = delim => absent (same ▸ inside))]
        simp
      refine ⟨{ b with ahead := tail }, ?_, later, ready, rfl⟩
      simp only [line, if_pos found, first]
      rw [split]
      simp
    · -- the delimiter is still to be read
      obtain ⟨missing, rfl, coming⟩ := split_later whole found
      obtain ⟨size, endless⟩ := ready
      -- a full buffer is set aside, and its place is free
      obtain ⟨kept, aside', keeps, sets, joined, part, room⟩ : ∃ kept aside',
          (if b.size ≤ b.ahead.length then [] else b.ahead) = kept ∧
          (if b.size ≤ b.ahead.length then aside ++ b.ahead else aside) = aside' ∧
          aside' ++ kept = aside ++ b.ahead ∧ kept ⊆ b.ahead ∧ 0 < b.size - kept.length := by
        split
        · exact ⟨_, _, rfl, rfl, by simp, by simp, by simpa⟩
        · exact ⟨_, _, rfl, rfl, rfl, Subset.refl _, by omega⟩
      obtain ⟨bytes, ran, filled, -, split, endless'⟩ :=
        inside.endless endless room (by simp [coming])
      simp only [line, if_neg found, keeps, sets]
      rcases step : inner b.source (b.size - kept.length) with ⟨got, source⟩
      simp only [step] at ran split endless'
      subst ran
      have shorter : (content source).length < fuel := by
        have := length_pos_of_ne_nil filled
        rw [split, length_append] at fueled
        omega
      obtain ⟨b', ended, left, ready', same⟩ :=
        @ih { b with ahead := kept ++ bytes, source := source } aside' (kept ++ missing)
          ⟨size, endless'⟩ (fun inside => absent (by grind))
          (by rw [remaining, append_assoc, ← split, coming, append_assoc]) shorter
      refine ⟨b', ended.trans ?_, left, ready', same⟩
      rw [← append_assoc, joined, append_assoc aside]

end Buffered

/-! ### Parsers -/

inductive ReadOp where
  | read (n : Nat)
  | full (n : Nat)

@[reducible] def ReadOp.Res (α : Type) : ReadOp → Type
  | .read _ => List α × Option ReadError
  | .full _ => Except ReadError (List α)

/-- The reads of a parser, on some reader. -/
def ReadOp.step {ρ α : Type} (read : Read ρ α) : ρ → (op : ReadOp) → ReadOp.Res α op × ρ
  | r, .read n => read r n
  | r, .full n => read.full n r n

def ReadOp.IsFull : ReadOp → Prop
  | .full _ => True
  | .read _ => False

abbrev Parser (α β : Type) := Prog ReadOp (ReadOp.Res α) β

namespace Parser

variable {ρ α β γ : Type}

abbrev read (n : Nat) : Parser α (List α × Option ReadError) := Prog.ask (ReadOp.read n)

abbrev full (n : Nat) : Parser α (Except ReadError (List α)) := Prog.ask (ReadOp.full n)

/-- From a reader whose next elements are `taken`, the parser returns the value and has
consumed exactly these elements. -/
def Yields (read : Read ρ α) (content : ρ → List α) (serves : Nat → ρ → Prop)
    (p : Parser α β) (taken : List α) (value : β) : Prop :=
  ∀ k r rest, content r = taken ++ rest → serves k r → taken.length ≤ k →
    ∃ r', p.eval (ReadOp.step read) r = (value, r') ∧ content r' = rest ∧
      serves (k - taken.length) r'

variable {read : Read ρ α} {content : ρ → List α} {serves : Nat → ρ → Prop}

theorem yields_pure (value : β) :
    Yields read content serves (pure value : Parser α β) [] value :=
  fun _ r _ next ready _ => ⟨r, rfl, next, ready⟩

variable {p : Parser α β} {value : γ}

theorem yields_bind {f : β → Parser α γ} {first second : List α} {mid : β}
    (one : Yields read content serves p first mid)
    (two : Yields read content serves (f mid) second value) :
    Yields read content serves (p >>= f) (first ++ second) value := by
  intro k r rest next ready room
  rw [length_append] at room
  rw [append_assoc] at next
  obtain ⟨r₁, ran₁, next₁, ready₁⟩ := one k r _ next ready (by omega)
  obtain ⟨r₂, ran₂, next₂, ready₂⟩ := two _ r₁ rest next₁ ready₁ (by omega)
  refine ⟨r₂, ?_, next₂, ?_⟩
  · rw [Prog.eval_bind, ran₁, ran₂]
  · rwa [length_append, ← Nat.sub_sub]

variable {taken : List α}

/-- The rest of the parser reads nothing. -/
theorem yields_last {f : β → Parser α γ} {mid : β} (one : Yields read content serves p taken mid)
    (last : f mid = pure value) :
    Yields read content serves (p >>= f) taken value := by
  have two : Yields read content serves (f mid) [] value := by
    rw [last]
    exact yields_pure value
  simpa using yields_bind one two

theorem yields_full (lawful : Read.Lawful read content serves) (taken : List α) :
    Yields read content serves (full taken.length) taken (.ok taken) := by
  intro k r rest next ready room
  have enough : taken.length ≤ (content r).length := by simp [next]
  obtain ⟨r', ran, left, ready'⟩ := Read.full_lawful lawful enough ready room (le_refl _)
  refine ⟨r', ?_, ?_, ready'⟩
  · show read.full taken.length r taken.length = _
    rw [ran, next, take_left]
  · rw [left, next, drop_left]

variable {f : Except ReadError (List α) → Parser α γ}

/-- A full read in front of the rest of a parser. -/
theorem yields_full_bind (lawful : Read.Lawful read content serves) {n : Nat}
    {first second : List α} (length : first.length = n)
    (two : Yields read content serves (f (.ok first)) second value) :
    Yields read content serves (full n >>= f) (first ++ second) value := by
  subst length
  exact yields_bind (yields_full lawful first) two

/-- A full read at the end of a parser. -/
theorem yields_full_last (lawful : Read.Lawful read content serves) {n : Nat}
    (length : taken.length = n) (last : f (.ok taken) = pure value) :
    Yields read content serves (full n >>= f) taken value := by
  subst length
  exact yields_last (yields_full lawful taken) last

/-! ### Parsing a list

What a parser of full reads makes of a stream is what it makes of the list of its elements. -/

def parse (p : Parser α β) (l : List α) : β × List α := p.eval (ReadOp.step Read.list) l

@[simp] theorem parse_pure (value : β) (l : List α) :
    parse (pure value : Parser α β) l = (value, l) :=
  rfl

theorem parse_bind (p : Parser α β) (f : β → Parser α γ) (l : List α) :
    parse (p >>= f) l = parse (f (parse p l).1) (parse p l).2 :=
  Prog.eval_bind _ p f l

/-- A request that cannot be filled takes all that is left. -/
theorem parse_full (n : Nat) (l : List α) : parse (full n) l = (Read.filled n l, l.drop n) := by
  obtain ⟨l', ran, rest, -⟩ := Read.full_endless Read.list_lawful (fun _ => trivial) n
  exact ran.trans (congrArg _ rest)

theorem parse_full_bind (n : Nat) (f : Except ReadError (List α) → Parser α γ) (l : List α) :
    parse (full n >>= f) l =
      if n ≤ l.length then parse (f (.ok (l.take n))) (l.drop n)
      else parse (f (.error .eof)) [] := by
  rw [parse_bind, parse_full, Read.filled]
  split
  · rfl
  · rw [drop_of_length_le (by omega)]

theorem parse_full_append {n : Nat} {taken : List α} (length : taken.length = n)
    (f : Except ReadError (List α) → Parser α γ) (rest : List α) :
    parse (full n >>= f) (taken ++ rest) = parse (f (.ok taken)) rest := by
  rw [parse_full_bind, if_pos (by simp [length]), take_left' length, drop_left' length]

/-- Reading one element, as readers of a tag or a length do. -/
theorem parse_one_cons (f : Except ReadError (List α) → Parser α γ) (a : α) (l : List α) :
    parse (full 1 >>= f) (a :: l) = parse (f (.ok [a])) l :=
  @parse_full_append α γ 1 [a] rfl f l

theorem parse_one_nil (f : Except ReadError (List α) → Parser α γ) :
    parse (full 1 >>= f) [] = parse (f (.error .eof)) [] := by
  rw [parse_full_bind, if_neg (by simp)]

/-- What is read from a lawful reader does not depend on its pieces. -/
theorem eval_parse (lawful : Read.Lawful read content serves) {p : Parser α β}
    (only : p.Only ReadOp.IsFull) {r : ρ} (ready : ∀ k, serves k r) :
    ∃ r', p.eval (ReadOp.step read) r = ((p.parse (content r)).1, r') ∧
      content r' = (p.parse (content r)).2 ∧ ∀ k, serves k r' := by
  induction p generalizing r with
  | ret value => exact ⟨r, rfl, rfl, ready⟩
  | call op next ih =>
    cases op with
    | read n => exact only.1.elim
    | full n =>
      obtain ⟨r', step, rest, ready'⟩ := Read.full_endless lawful ready n
      have parsed : parse (full n >>= next) (content r) =
          parse (next (Read.filled n (content r))) (content r') := by
        rw [parse_bind, parse_full, rest]
      show ∃ r'', Prog.eval _ (next (read.full n r n).1) (read.full n r n).2 =
          ((parse (full n >>= next) (content r)).1, r'') ∧
        _ = (parse (full n >>= next) (content r)).2 ∧ _
      rw [step, parsed]
      exact ih _ (only.2 _) ready'

/-- A parser that has left something over did not depend on what it left. -/
theorem parse_local {p : Parser α β} (only : p.Only ReadOp.IsFull) {l rest : List α} {value : β}
    (parsed : p.parse l = (value, rest)) (left : rest ≠ []) :
    ∃ taken, l = taken ++ rest ∧ ∀ rest', p.parse (taken ++ rest') = (value, rest') := by
  induction p generalizing l with
  | ret value =>
    cases parsed
    exact ⟨[], rfl, fun _ => rfl⟩
  | call op next ih =>
    cases op with
    | read n => exact only.1.elim
    | full n =>
      replace parsed : parse (full n >>= next) l = (value, rest) := parsed
      rw [parse_full_bind] at parsed
      split at parsed
      next enough =>
        obtain ⟨taken, split, same⟩ := ih _ (only.2 _) parsed
        have length : (l.take n).length = n := length_take_of_le enough
        refine ⟨l.take n ++ taken, ?_, ?_⟩
        · rw [append_assoc, ← split, take_append_drop]
        · intro rest'
          show parse (full n >>= next) _ = _
          rw [parse_full_bind, if_pos (by simp [length]), append_assoc,
            take_left' length, drop_left' length]
          exact same rest'
      next short =>
        -- at the end there is nothing left to be left over
        obtain ⟨taken, split, -⟩ := ih _ (only.2 _) parsed
        exact (left (append_eq_nil_iff.mp split.symm).2).elim

theorem parse_yields {value : β} (yields : Yields Read.list id (fun _ _ => True) p taken value)
    (rest : List α) :
    p.parse (taken ++ rest) = (value, rest) := by
  obtain ⟨l, ran, left, -⟩ := yields taken.length (taken ++ rest) rest rfl trivial (le_refl _)
  rw [parse, ran]
  exact congrArg _ left

end Parser

end TrojanGo.Lib
