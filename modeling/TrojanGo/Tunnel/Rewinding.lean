import TrojanGo.Tunnel.Connections

/-!
# Reading again from the start

The reader below may return its bytes in any pieces and with any errors. A read that would exceed
the limit returns its bytes with an error and keeps none of them.
-/
namespace TrojanGo.Tunnel

open Lib List

namespace RewindReader

variable {ρ : Type}

/-- `SetBufferSize`; there is no result if it panics. -/
def trySetBufferSize (r : RewindReader ρ) (size : Int) : Option (RewindReader ρ) :=
  if size = 0 then
    if r.buffering then
      some { r with buffering := false, buf := [], bufReadIdx := 0, bufferSize := 0 }
    else none
  else if r.buffering then none
  -- no buffer of negative size can be made
  else if size < 0 then none
  else some (r.setBufferSize size.toNat)

/-- `Rewind`; there is no result if it panics. -/
def tryRewind (r : RewindReader ρ) : Option (RewindReader ρ) :=
  if r.bufferSize = 0 then none else some r.rewind

inductive Call where
  | read (n : Nat)
  | rewind
  deriving DecidableEq

variable (inner : Read ρ UInt8)

/-- What the calls return is of no interest before the last rewind. -/
def calls : List Call → RewindReader ρ → Option (RewindReader ρ)
  | [], r => some r
  | .read n :: rest, r => calls rest (read inner r n).2
  | .rewind :: rest, r => r.tryRewind.bind (calls rest)

/-- From `SetBufferSize` to the last `Rewind`. -/
def prelude (size : Int) (before : List Call) (r : RewindReader ρ) : Option (RewindReader ρ) :=
  (r.trySetBufferSize size).bind (calls inner before)

/-- The whole session. It returns the bytes read since the last `Rewind`. -/
def session (size : Int) (before : List Call) (during after : List Nat) (r : RewindReader ρ) :
    Option (Bytes × RewindReader ρ) := do
  let r ← prelude inner size before r
  let r ← r.tryRewind
  let (first, r) := Read.many (read inner) r during
  let (second, r) := Read.many (read inner) r.stopBuffering after
  return (first ++ second, r)

variable {inner} {content : ρ → Bytes}

/-- Over any reader that returns its bytes in order, the rewinding reader does so too. -/
theorem faithful (inside : inner.Faithful content) :
    Read.Faithful (read inner) (remaining content) := by
  intro r n
  -- what was kept and not returned again yet comes first, then the reader below
  by_cases again : r.rewound ∧ r.bufReadIdx < r.buf.length
  · simp only [read, if_pos again]
    simp only [remaining, again.1, if_true]
    rw [← append_assoc, ← drop_drop, take_append_drop_length]
  · rw [remaining_raw again, inside r.raw n]
    simp only [read, if_neg again]
    rcases inner r.raw n with ⟨⟨bytes, err⟩, raw⟩
    dsimp only
    split
    · split <;> simp [remaining]
    · simp [remaining]

/-- The reader has been keeping what it took from the reader below since the content was
`start`. -/
structure Keeping (content : ρ → Bytes) (start : Bytes) (r : RewindReader ρ) : Prop where
  buffering : r.buffering = true
  sized : r.bufferSize ≠ 0
  limited : r.buf.length ≤ bufferLimit
  taken : ∃ taken, start = taken ++ content r.raw ∧ (taken.length ≤ bufferLimit → r.buf = taken)

theorem Keeping.read (inside : inner.Faithful content) {start : Bytes} {r : RewindReader ρ}
    (keeping : Keeping content start r) (n : Nat) :
    Keeping content start (RewindReader.read inner r n).2 := by
  obtain ⟨on, sized, limited, taken, split, kept⟩ := keeping
  by_cases again : r.rewound ∧ r.bufReadIdx < r.buf.length
  · -- nothing is taken from the reader below
    simp only [RewindReader.read, if_pos again]
    exact ⟨on, sized, limited, taken, split, kept⟩
  have next := inside r.raw n
  simp only [RewindReader.read, if_neg again]
  rcases step : inner r.raw n with ⟨⟨bytes, err⟩, raw⟩
  rw [step] at next
  dsimp only at next ⊢
  rw [next, ← append_assoc] at split
  by_cases some : 0 < bytes.length
  · simp only [on, some, and_self, if_true]
    by_cases large : r.buf.length + bytes.length > bufferLimit
    · -- the bytes are returned, but not kept
      rw [if_pos large]
      refine ⟨rfl, sized, limited, taken ++ bytes, split, fun fits => ?_⟩
      rw [length_append] at fits
      rw [kept (by omega)] at large
      omega
    · rw [if_neg large]
      refine ⟨rfl, sized, ?_, taken ++ bytes, split, fun fits => ?_⟩
      · simp only [length_append]
        omega
      · rw [length_append] at fits
        simp only [kept (by omega)]
  · obtain rfl : bytes = [] := by simpa using some
    simp only [length_nil, Nat.lt_irrefl, and_false, if_false]
    exact ⟨on, sized, limited, taken, by simpa using split, kept⟩

theorem Keeping.rewind {start : Bytes} {r : RewindReader ρ} (keeping : Keeping content start r) :
    r.tryRewind = some r.rewind ∧ Keeping content start r.rewind :=
  ⟨if_neg keeping.sized, keeping.buffering, keeping.sized, keeping.limited, keeping.taken⟩

theorem Keeping.calls (inside : inner.Faithful content) {start : Bytes} {before : List Call}
    {r : RewindReader ρ} (keeping : Keeping content start r) :
    ∃ r', RewindReader.calls inner before r = some r' ∧ Keeping content start r' := by
  induction before generalizing r with
  | nil => exact ⟨r, rfl, keeping⟩
  | cons call before ih =>
    cases call with
    | read n => exact ih (keeping.read inside n)
    | rewind =>
      obtain ⟨rewound, still⟩ := keeping.rewind
      simp only [RewindReader.calls, rewound, Option.bind_some]
      exact ih still

theorem keeping_set {r : RewindReader ρ} {size : Int} (idle : r.buffering = false)
    (positive : 0 < size) :
    ∃ r', r.trySetBufferSize size = some r' ∧ r'.raw = r.raw ∧
      Keeping content (content r.raw) r' := by
  refine ⟨r.setBufferSize size.toNat, ?_, rfl, rfl, ?_, by simp [setBufferSize], [], rfl, ?_⟩
  · grind [trySetBufferSize]
  · simp only [setBufferSize]
    omega
  · intro _
    rfl

/-- What comes after the last rewind: what was kept, and then the rest. -/
theorem session_spec (inside : inner.Faithful content) {r : RewindReader ρ} {size : Int}
    (idle : r.buffering = false) (positive : 0 < size) (before : List Call)
    (during after : List Nat) :
    ∃ kept returned r', prelude inner size before r = some kept ∧
      Keeping content (content r.raw) kept ∧
      session inner size before during after r = some (returned, r') ∧
      kept.buf ++ content kept.raw = returned ++ remaining content r' := by
  obtain ⟨set, setting, -, keeping⟩ := keeping_set idle positive
  obtain ⟨kept, called, keeping⟩ := @Keeping.calls _ _ _ inside _ before _ keeping
  have prepared : prelude inner size before r = some kept := by
    simp [prelude, setting, called]
  have first := (faithful inside).many during kept.rewind
  rcases one : Read.many (RewindReader.read inner) kept.rewind during with ⟨bytes, r₁⟩
  have second := (faithful inside).many after r₁.stopBuffering
  rcases two : Read.many (RewindReader.read inner) r₁.stopBuffering after with ⟨bytes', r₂⟩
  rw [one] at first
  rw [two] at second
  refine ⟨kept, bytes ++ bytes', r₂, prepared, keeping, ?_, ?_⟩
  · simp [session, prepared, keeping.rewind.1, one, two]
  · rw [append_assoc, ← second]
    -- switching the buffering off does not change what remains
    show kept.buf ++ content kept.raw = bytes ++ remaining content r₁
    rw [← first]
    rfl

/-- The bytes returned after the last rewind are those of the reader below from the call of
`SetBufferSize` on, if and only if at most 1 MiB of them had been read before this rewind. -/
theorem reads_again_iff {ρ : Type} (inner : Read ρ UInt8) (content : ρ → Bytes)
    (inside : inner.Faithful content) (r : RewindReader ρ) (size : Int)
    (idle : r.buffering = false) (positive : 0 < size) (before : List Call)
    (during after : List Nat) :
    ∃ kept returned r', prelude inner size before r = some kept ∧
      session inner size before during after r = some (returned, r') ∧
      (remaining content r' = [] → (returned = content r.raw ↔
        (content r.raw).length - (content kept.raw).length ≤ bufferLimit)) := by
  obtain ⟨kept, returned, r', prepared, keeping, ran, split⟩ :=
    session_spec inside idle positive before during after
  refine ⟨kept, returned, r', prepared, ran, fun drained => ?_⟩
  obtain ⟨taken, start, same⟩ := keeping.taken
  rw [drained, append_nil] at split
  rw [← split, start, length_append, Nat.add_sub_cancel]
  constructor
  · intro returned
    -- then the bytes taken are the bytes kept, and those are limited
    rw [← append_cancel_right returned]
    exact keeping.limited
  · intro fits
    rw [same fits]

namespace Sample

/-- A reader that reports the end together with its last bytes. -/
def eager : Read Bytes UInt8 := fun l n =>
  ((l.take n, if l.length ≤ n then some .eof else none), l.drop n)

theorem eager_faithful : eager.Faithful id := fun l n => (take_append_drop n l).symm

def short : RewindReader Bytes := { raw := [1, 2, 3, 4] }

def zeros (n : Nat) : RewindReader Bytes := { raw := List.replicate n 0 }

/-- All the bytes are read at once, and they are too many to be kept. -/
theorem session_zeros {n : Nat} (large : bufferLimit < n) :
    session eager 16 [.read n] [] [n] (zeros n) =
      some ([], { raw := [], buffering := false, bufferSize := 16 }) := by
  have positive : 0 < n := by omega
  have first : (RewindReader.read eager ((zeros n).setBufferSize 16) n).2 =
      { raw := [], buffering := true, bufferSize := 16 } := by
    simp [RewindReader.read, zeros, setBufferSize, eager, positive, large]
  have prepared : prelude eager 16 [.read n] (zeros n) =
      some { raw := [], buffering := true, bufferSize := 16 } := congrArg some first
  simp [session, prepared, tryRewind, rewind, stopBuffering, Read.many, RewindReader.read, eager]

end Sample

/-- A stream that reports its end together with data, read twice. -/
theorem short_stream_reads_again :
    Sample.eager.Faithful id ∧ Sample.short.buffering = false ∧
      ∃ returned r', session Sample.eager 16 [.read 2, .rewind, .read 5, .read 1] [3] [9, 1]
        Sample.short = some (returned, r') ∧ returned = Sample.short.raw := by
  refine ⟨Sample.eager_faithful, rfl, ?_⟩
  obtain ⟨kept, returned, r', prepared, ran, iff⟩ := reads_again_iff Sample.eager id
    Sample.eager_faithful Sample.short 16 rfl (by decide) [.read 2, .rewind, .read 5, .read 1]
    [3] [9, 1]
  refine ⟨returned, r', ran, ?_⟩
  cases prepared
  cases ran
  exact (iff rfl).mpr (by decide)

/-- One byte more than 1 MiB: nothing comes back. -/
theorem long_stream_lost :
    ∃ returned r', session Sample.eager 16 [.read (bufferLimit + 1)] [] [bufferLimit + 1]
      (Sample.zeros (bufferLimit + 1)) = some (returned, r') ∧ remaining id r' = [] ∧
      returned ≠ (Sample.zeros (bufferLimit + 1)).raw := by
  refine ⟨_, _, Sample.session_zeros (Nat.lt_succ_self _), rfl, ?_⟩
  simp [Sample.zeros]

end RewindReader

end TrojanGo.Tunnel
