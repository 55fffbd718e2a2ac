import TrojanGo.Lib.Copying
import TrojanGo.Tunnel.Rewinding

/-!
# Reading on trial

As long as everything can be kept, a parser cannot tell the rewinding reader from the connection,
and afterwards the connection can be read again from its start.
-/
namespace TrojanGo.Fallback

open Lib Tunnel List
open RewindReader (bufferLimit remaining remaining_raw)

/-- A parser on a new `RewindConn` that keeps what is read. -/
def sniff {ρ β : Type} (inner : Read ρ UInt8) (size : Nat) (p : Parser UInt8 β) (conn : ρ) :
    β × RewindReader ρ :=
  p.eval (ReadOp.step (RewindReader.read inner)) (RewindReader.setBufferSize { raw := conn } size)

/-- The buffer of `io.Copy`. -/
def copySize : Nat := 32 * 1024

/-! ### What is kept -/

/-- What the servers rely on in the connection below them. -/
structure Sound {ρ : Type} (inner : Read ρ UInt8) (content : ρ → Bytes) (ready : ρ → Prop) :
    Prop where
  lawful : inner.Lawful content fun _ => ready
  faithful : inner.Faithful content
  bounded : inner.Bounded
  stays : ∀ r n, ready r → ready (inner r n).2

theorem segments_sound : Sound Segments.read Segments.content fun _ : Segments UInt8 => True where
  lawful := Segments.lawful
  faithful := Segments.faithful
  bounded := Segments.bounded
  stays _ _ _ := trivial

section Kept

variable {ρ β : Type} {inner : Read ρ UInt8} {content : ρ → Bytes} {ready : ρ → Prop}

/-- A read on the rewinding reader, with all that can become of it. -/
theorem read_cases (r : RewindReader ρ) (n : Nat) :
    (RewindReader.read inner r n).2.buffering = r.buffering ∧
      ((RewindReader.read inner r n).1.1.length ≤ n ∧
          (RewindReader.read inner r n).2.raw = r.raw ∨
        (RewindReader.read inner r n).1.1 = (inner r.raw n).1.1 ∧
          (RewindReader.read inner r n).2.raw = (inner r.raw n).2) := by
  by_cases again : r.rewound ∧ r.bufReadIdx < r.buf.length
  · simp only [RewindReader.read, if_pos again]
    exact ⟨trivial, .inl ⟨length_take_le n _, trivial⟩⟩
  · simp only [RewindReader.read, if_neg again]
    split
    · grind
    · exact ⟨rfl, .inr ⟨rfl, rfl⟩⟩

section Read

variable {r : RewindReader ρ} {n : Nat} {bytes : Bytes} {err : Option ReadError} {raw : ρ}

section

variable (direct : ¬ (r.rewound ∧ r.bufReadIdx < r.buf.length))

include direct

theorem read_nothing (step : inner r.raw n = (([], err), raw)) :
    RewindReader.read inner r n = (([], err), { r with raw := raw, rewound := false }) := by
  simp [RewindReader.read, if_neg direct, step]

theorem read_keeping (on : r.buffering = true) (step : inner r.raw n = ((bytes, err), raw))
    (filled : bytes ≠ []) (small : r.buf.length + bytes.length ≤ bufferLimit) :
    RewindReader.read inner r n =
      ((bytes, err), { r with raw := raw, rewound := false, buf := r.buf ++ bytes }) := by
  have some : 0 < bytes.length := length_pos_of_ne_nil filled
  simp only [RewindReader.read, if_neg direct, step, on, some, and_self, if_true]
  rw [if_neg (Nat.not_lt.mpr small)]

/-- The bytes are returned, but not kept. -/
theorem read_refusing (on : r.buffering = true) (step : inner r.raw n = ((bytes, err), raw))
    (filled : bytes ≠ []) (large : bufferLimit < r.buf.length + bytes.length) :
    RewindReader.read inner r n =
      ((bytes, some .refused), { r with raw := raw, rewound := false }) := by
  have some : 0 < bytes.length := length_pos_of_ne_nil filled
  simp only [RewindReader.read, if_neg direct, step, on, some, and_self, if_true]
  rw [if_pos large]

end

end Read

/-- The reader has stopped keeping what it returns. -/
def Calm (ready : ρ → Prop) (r : RewindReader ρ) : Prop := r.buffering = false ∧ ready r.raw

theorem Sound.calm (sound : Sound inner content ready) {r : RewindReader ρ} (calm : Calm ready r)
    (n : Nat) : Calm ready (RewindReader.read inner r n).2 := by
  obtain ⟨off, ⟨-, raw⟩ | ⟨-, raw⟩⟩ := @read_cases ρ inner r n
  · exact ⟨off.trans calm.1, raw ▸ calm.2⟩
  · exact ⟨off.trans calm.1, raw ▸ sound.stays r.raw n calm.2⟩

/-- The connection that a server hands on is again one that the next server can rely on. -/
theorem Sound.rewinding (sound : Sound inner content ready) :
    Sound (RewindReader.read inner) (remaining content) (Calm ready) := by
  have below := RewindReader.lawful sound.lawful
  have serves : ∀ {r : RewindReader ρ}, Calm ready r → ∀ k,
      RewindReader.Serves (fun _ => ready) k r := by
    rintro r ⟨off, calm⟩ k
    exact ⟨fun on => absurd (off.symm.trans on) Bool.false_ne_true, fun _ => calm⟩
  refine ⟨⟨fun _ _ _ _ calm => calm, ?_, ?_⟩, RewindReader.faithful sound.faithful, ?_, ?_⟩
  · intro k r n calm positive empty
    obtain ⟨ran, still, -⟩ := below.ends k r n (serves calm k) positive empty
    exact ⟨ran, still, sound.calm calm n⟩
  · intro k r n calm positive room more
    obtain ⟨bytes, ran, filled, short, split, -⟩ :=
      below.step k r n (serves calm k) positive room more
    exact ⟨bytes, ran, filled, short, split, sound.calm calm n⟩
  · intro r n
    obtain ⟨-, ⟨short, -⟩ | ⟨same, -⟩⟩ := @read_cases ρ inner r n
    · exact short
    · rw [same]
      exact sound.bounded r.raw n
  · intro r n calm
    exact sound.calm calm n

/-- Everything since the start is still there. -/
structure Exact (content : ρ → Bytes) (start : Bytes) (r : RewindReader ρ) : Prop where
  buffering : r.buffering = true
  fresh : r.rewound = false
  limited : r.buf.length ≤ bufferLimit
  whole : start = r.buf ++ content r.raw

/-- Something is missing. -/
def Lossy (content : ρ → Bytes) (start : Bytes) (r : RewindReader ρ) : Prop :=
  r.buf.length + (content r.raw).length < start.length

theorem trial_agrees (faithful : inner.Faithful content) (start : Bytes) :
    Read.Agree (RewindReader.read inner) inner
      (fun r raw => Exact content start r ∧ r.raw = raw) (Lossy content start)
      (fun raw => bufferLimit + (content raw).length < start.length) where
  step r raw n here := by
    obtain ⟨⟨on, fresh, limited, whole⟩, rfl⟩ := here
    have split := faithful r.raw n
    rcases step : inner r.raw n with ⟨⟨bytes, err⟩, raw'⟩
    rw [step] at split
    simp only at split
    have direct : ¬ (r.rewound ∧ r.bufReadIdx < r.buf.length) := by simp [fresh]
    by_cases nothing : bytes = []
    · subst nothing
      rw [read_nothing direct step]
      exact .inl ⟨rfl, ⟨on, rfl, limited, by rw [whole, split, nil_append]⟩, rfl⟩
    by_cases small : r.buf.length + bytes.length ≤ bufferLimit
    · rw [read_keeping direct on step nothing small]
      refine .inl ⟨rfl, ⟨on, rfl, by simpa using small, ?_⟩, rfl⟩
      rw [whole, split, append_assoc]
    have large := Nat.lt_of_not_le small
    have positive := length_pos_of_ne_nil nothing
    have length := congrArg length whole
    rw [split] at length
    simp only [length_append] at length
    rw [read_refusing direct on step nothing large]
    right
    constructor
    · show r.buf.length + (content raw').length < start.length
      omega
    · show bufferLimit + (content raw').length < start.length
      omega
  stays r n lossy := by
    unfold Lossy at lossy ⊢
    by_cases again : r.rewound ∧ r.bufReadIdx < r.buf.length
    · simp only [RewindReader.read, if_pos again]
      exact lossy
    have split := congrArg length (faithful r.raw n)
    rcases step : inner r.raw n with ⟨⟨bytes, err⟩, raw'⟩
    rw [step, length_append] at split
    simp only [RewindReader.read, if_neg again, step] at split ⊢
    -- at most the bytes that were taken from the connection are added to the buffer
    split
    · split
      · simp only
        omega
      · simp only [length_append]
        omega
    · simp only
      omega
  stays' raw n gone := by
    have split := congrArg length (faithful raw n)
    rw [length_append] at split
    omega

/-- On the connection itself the parser takes no more than can be kept. -/
def Kept (inner : Read ρ UInt8) (content : ρ → Bytes) (p : Parser UInt8 β) (conn : ρ) : Prop :=
  (content conn).length ≤
    bufferLimit + (content (p.eval (ReadOp.step inner) conn).2).length

instance (p : Parser UInt8 β) (conn : ρ) : Decidable (Kept inner content p conn) :=
  inferInstanceAs (Decidable (_ ≤ _))

theorem sniff_cases (faithful : inner.Faithful content) (size : Nat) (p : Parser UInt8 β)
    (conn : ρ) :
    (sniff inner size p conn).1 = (p.eval (ReadOp.step inner) conn).1 ∧
        Exact content (content conn) (sniff inner size p conn).2 ∧
        (sniff inner size p conn).2.raw = (p.eval (ReadOp.step inner) conn).2 ∨
      Lossy content (content conn) (sniff inner size p conn).2 ∧
        ¬ Kept inner content p conn := by
  have start : Exact content (content conn) (RewindReader.setBufferSize { raw := conn } size) :=
    ⟨rfl, rfl, Nat.zero_le _, rfl⟩
  rcases Parser.eval_agree (trial_agrees faithful (content conn)) p ⟨start, rfl⟩ with same | gone
  · exact .inl same
  · exact .inr ⟨gone.1, Nat.not_le.mpr gone.2⟩

theorem sniff_kept (faithful : inner.Faithful content) {size : Nat} {p : Parser UInt8 β} {conn : ρ}
    (kept : Kept inner content p conn) :
    (sniff inner size p conn).1 = (p.eval (ReadOp.step inner) conn).1 ∧
      Exact content (content conn) (sniff inner size p conn).2 ∧
      (sniff inner size p conn).2.raw = (p.eval (ReadOp.step inner) conn).2 := by
  rcases sniff_cases faithful size p conn with same | ⟨-, more⟩
  · exact same
  · exact absurd kept more

theorem remaining_rewind (r : RewindReader ρ) :
    remaining content r.rewind = r.buf ++ content r.raw :=
  rfl

/-- What could not be kept is missing after rewinding. -/
theorem remaining_rewind_lt (faithful : inner.Faithful content) {size : Nat}
    {p : Parser UInt8 β} {conn : ρ} (more : ¬ Kept inner content p conn) :
    (remaining content (sniff inner size p conn).2.rewind).length <
      (content conn).length := by
  rw [remaining_rewind, length_append]
  rcases sniff_cases faithful size p conn with ⟨-, exact, raw⟩ | ⟨lossy, -⟩
  · have length := congrArg length exact.whole
    have limited := exact.limited
    rw [length_append, raw] at length
    unfold Kept at more
    omega
  · exact lossy

theorem remaining_rewind_iff (faithful : inner.Faithful content) {size : Nat}
    {p : Parser UInt8 β} {conn : ρ} :
    remaining content (sniff inner size p conn).2.rewind = content conn ↔
      Kept inner content p conn := by
  constructor
  · intro same
    by_contra more
    have short := @remaining_rewind_lt _ _ _ _ faithful size _ _ more
    rw [same] at short
    exact Nat.lt_irrefl _ short
  · intro kept
    obtain ⟨-, exact, -⟩ := @sniff_kept _ _ _ _ faithful size _ _ kept
    exact exact.whole.symm

end Kept

/-! ### What is copied -/

section Copied

variable {ρ β : Type} {inner : Read ρ UInt8} {content : ρ → Bytes} {ready : ρ → Prop}

theorem sniff_calm (sound : Sound inner content ready) {size : Nat} {p : Parser UInt8 β} {conn : ρ}
    (calm : ready conn) : ready (sniff inner size p conn).2.raw := by
  have keeps : ∀ (r : RewindReader ρ) n, ready r.raw →
      ready (RewindReader.read inner r n).2.raw := by
    intro r n calm
    obtain ⟨-, ⟨-, raw⟩ | ⟨-, raw⟩⟩ := @read_cases ρ inner r n
    · exact raw ▸ calm
    · exact raw ▸ sound.stays r.raw n calm
  exact @Parser.eval_keeps _ _ _ _ (fun r : RewindReader ρ => ready r.raw) keeps p _ calm

/-- A connection that is not kept any more is copied to its end. -/
theorem copies_calm (sound : Sound inner content ready) {conn : RewindReader ρ}
    (calm : Calm ready conn) (bytes : Bytes) :
    (∃ fuel, (RewindReader.read inner).copy copySize fuel conn = some bytes) ↔
      remaining content conn = bytes := by
  have copied := Read.copy_lawful sound.rewinding.lawful (by decide : 0 < copySize)
    (fun _ => calm) (Nat.lt_succ_self (remaining content conn).length)
  constructor
  · rintro ⟨fuel, done⟩
    exact Read.copy_unique copied done
  · rintro rfl
    exact ⟨_, copied⟩

/-- Once more than can be kept of these many bytes has been read, nothing is left. -/
def Ends (inner : Read ρ UInt8) (content : ρ → Bytes) (total : Nat) (conn : ρ) : Prop :=
  ∀ n, bufferLimit <
      total - (content (inner.many conn (List.replicate n copySize)).2).length →
    content (inner.many conn (List.replicate n copySize)).2 = []

variable {total : Nat} {conn : ρ}

theorem ends_iff : Ends inner content total conn ↔
    (bufferLimit < total - (content conn).length → content conn = []) ∧
      Ends inner content total (inner conn copySize).2 := by
  constructor
  · intro ends
    exact ⟨ends 0, fun n => ends (n + 1)⟩
  · rintro ⟨first, rest⟩ n
    cases n with
    | zero => exact first
    | succ n => exact rest n

theorem ends_of_nil (lawful : inner.Lawful content fun _ => ready) (calm : ready conn)
    (nothing : content conn = []) : Ends inner content total conn := by
  intro n _
  have positive : ∀ size ∈ replicate n copySize, 0 < size := by
    intro size inside
    rw [eq_of_mem_replicate inside]
    decide
  obtain ⟨split, -⟩ := Read.many_lawful lawful positive fun _ => calm
  rw [nothing] at split
  exact (append_eq_nil_iff.mp split).2

theorem ends_of_short (short : total ≤ bufferLimit) :
    Ends inner content total conn := by
  intro n passed
  omega

/-- While everything is kept, copying ends at the limit. -/
theorem copy_keeping (sound : Sound inner content ready) {fuel : Nat} {r : RewindReader ρ}
    (on : r.buffering = true) (limited : r.buf.length ≤ bufferLimit)
    (calm : ready r.raw) (enough : (remaining content r).length < fuel) :
    ∃ bytes, (RewindReader.read inner).copy copySize fuel r = some bytes ∧
      (bytes = remaining content r ↔
        Ends inner content (r.buf.length + (content r.raw).length) r.raw) := by
  have positive : 0 < copySize := by decide
  induction fuel generalizing r with
  | zero => omega
  | succ fuel ih =>
    by_cases again : r.rewound ∧ r.bufReadIdx < r.buf.length
    · -- what was kept comes first, and nothing changes below
      have step : RewindReader.read inner r copySize =
          (((r.buf.drop r.bufReadIdx).take copySize, none), { r with
            bufReadIdx := r.bufReadIdx + ((r.buf.drop r.bufReadIdx).take copySize).length }) := by
        simp only [RewindReader.read, if_pos again]
      have split := RewindReader.faithful sound.faithful r copySize
      have filled : 0 < ((r.buf.drop r.bufReadIdx).take copySize).length := by
        rw [length_take, length_drop]
        omega
      rw [step] at split
      simp only at split
      rw [split, length_append] at enough
      obtain ⟨later, copied, iff⟩ := @ih { r with
        bufReadIdx := r.bufReadIdx + ((r.buf.drop r.bufReadIdx).take copySize).length }
        on limited calm (by omega)
      refine ⟨_, by rw [Read.copy_step step, copied, Option.map_some], ?_⟩
      rw [split, append_cancel_left_eq]
      exact iff
    · rw [remaining_raw again] at enough ⊢
      by_cases nothing : content r.raw = []
      · obtain ⟨ran, -, -⟩ := sound.lawful.ends 0 r.raw copySize calm positive nothing
        refine ⟨[], Read.copy_error (read_nothing again (Prod.ext ran rfl)), ?_⟩
        exact ⟨fun _ => ends_of_nil sound.lawful calm nothing, fun _ => nothing.symm⟩
      · obtain ⟨bytes, ran, filled, -, split, -⟩ :=
          sound.lawful.endless (fun _ => calm) positive nothing
        have calm' := sound.stays r.raw copySize calm
        have step : inner r.raw copySize = ((bytes, none), (inner r.raw copySize).2) :=
          Prod.ext ran rfl
        have length : (content r.raw).length =
            bytes.length + (content (inner r.raw copySize).2).length := by
          rw [← length_append, ← split]
        have some := length_pos_of_ne_nil filled
        -- nothing has passed the limit so far
        have here : Ends inner content (r.buf.length + (content r.raw).length) r.raw ↔
            Ends inner content (r.buf.length + (content r.raw).length) (inner r.raw copySize).2 := by
          rw [ends_iff]
          exact and_iff_right fun passed => absurd passed (by omega)
        rw [here]
        by_cases small : r.buf.length + bytes.length ≤ bufferLimit
        · obtain ⟨later, copied, iff⟩ := @ih { r with
            raw := (inner r.raw copySize).2, rewound := false, buf := r.buf ++ bytes }
            on (by simpa using small) calm'
            (by rw [remaining_raw (by simp)]; simp only; omega)
          refine ⟨bytes ++ later, ?_, ?_⟩
          · rw [Read.copy_step (read_keeping again on step filled small), copied, Option.map_some]
          · rw [split, append_cancel_left_eq]
            rw [remaining_raw (by simp)] at iff
            simp only [length_append, Nat.add_assoc] at iff
            rw [length_append]
            exact iff
        · have large := Nat.lt_of_not_le small
          refine ⟨bytes, Read.copy_error (read_refusing again on step filled large), ?_⟩
          constructor
          · intro all
            apply ends_of_nil sound.lawful calm'
            rw [split] at all
            simpa using all
          · intro ends
            have left := ends 0 (by simp only [replicate_zero, Read.many]; omega)
            rw [split]
            simpa [Read.many] using left

theorem not_ends_of_long (sound : Sound inner content ready) (calm : ready conn)
    (before : total - (content conn).length ≤ bufferLimit)
    (long : bufferLimit + copySize < total) : ¬ Ends inner content total conn := by
  have positive : 0 < copySize := by decide
  induction size : (content conn).length using Nat.strong_induction_on generalizing conn with
  | _ size ih =>
    intro ends
    have more : content conn ≠ [] := by
      intro nothing
      simp only [nothing, length_nil] at before
      omega
    obtain ⟨bytes, -, filled, short, split, -⟩ :=
      sound.lawful.endless (fun _ => calm) positive more
    have length := congrArg length split
    rw [length_append] at length
    have some := length_pos_of_ne_nil filled
    have rest := (ends_iff.mp ends).2
    by_cases passed : bufferLimit <
        total - (content (inner conn copySize).2).length
    · -- one read does not reach the end
      have nothing := (ends_iff.mp rest).1 passed
      simp only [nothing, length_nil] at length
      omega
    · exact ih _ (by omega) (sound.stays conn copySize calm) (by omega) rfl rest

end Copied

end TrojanGo.Fallback
