import TrojanGo.Mux.StickyConn

/-!
# What reaches the wire

Frames that wait are sent in an order of their own, so a frame can overtake the end of its own
stream, a channel can run full, and a single header that is left at the end can be taken for a new
one.
-/
namespace TrojanGo.Mux

open List

/-! ### What waits, and what is sent -/

/-- The frames of a list that wait in a channel. -/
def among (q : Queue) (waiting : List Frame) : List Frame :=
  waiting.filter fun f => f.queue = some q

/-- What waits after a frame was written. -/
def waitingAfter (waiting : List Frame) (f : Frame) : List Frame :=
  if f.Waits then waiting ++ [f] else []

/-- The frames written since the last one that was not held back. -/
def waitingAtEnd : List Frame → List Frame → List Frame
  | waiting, [] => waiting
  | waiting, f :: rest => waitingAtEnd (waitingAfter waiting f) rest

/-- Every frame passes a check together with those that wait when it is written. -/
def Throughout (passes : List Frame → Frame → Prop) : List Frame → List Frame → Prop
  | _, [] => True
  | waiting, f :: rest => passes waiting f ∧ Throughout passes (waitingAfter waiting f) rest

/-- Whether a frame is held back until the next one has been sent. -/
def Frame.closes (f : Frame) : Bool := f.queue = some .fin

/-- Frames that are sent together: those that close streams come last. -/
def sentBlock (block : List Frame) : List Frame :=
  block.filter (fun f => !f.closes) ++ block.filter Frame.closes

/-- The order in which the frames are sent. -/
def sentOrder : List Frame → List Frame → List Frame
  | waiting, [] => sentBlock waiting
  | waiting, f :: rest =>
    if f.Waits then sentOrder (waiting ++ [f]) rest
    else sentBlock (waiting ++ [f]) ++ sentOrder [] rest

/-- A frame that waits finds a place in its channel. -/
def HasPlace (waiting : List Frame) (f : Frame) : Prop :=
  ∀ q, f.queue = some q → (among q waiting).length < queueSize

/-- A frame that overtakes those closing a stream belongs to another stream. -/
def OvertakesOthers (waiting : List Frame) (f : Frame) : Prop :=
  f.closes = false → ∀ g ∈ waiting, g.closes → g.streamID ≠ f.streamID

/-- The channels hold these frames. -/
structure Holds (waiting : List Frame) (c : StickyConn) : Prop where
  all : ∀ f ∈ waiting, f.Waits
  queues : ∀ q, c.queue q = (among q waiting).map Frame.bytes

variable {waiting : List Frame} {c : StickyConn} {f : Frame}

theorem Holds.push (holds : Holds waiting c) {q : Queue} (waits : f.queue = some q) :
    Holds (waiting ++ [f]) (c.push f.bytes q) where
  all g mem := by
    rcases mem_append.mp mem with before | here
    · exact holds.all g before
    · obtain rfl : g = f := by simpa using here
      simp [Frame.Waits, waits]
  queues q' := by
    have before := holds.queues q'
    rw [among, filter_append]
    cases q <;> cases q' <;> simp_all [StickyConn.push, StickyConn.queue, among]

theorem Holds.emptied (c : StickyConn) (p : Bytes) (wire : Bytes) :
    Holds [] { (c.stickToPayload p).2 with wire := wire } where
  all := by simp
  queues q := by cases q <;> rfl

/-- What a write sends is what waited and the frame. -/
theorem Holds.stick (holds : Holds waiting c) (p : Bytes) :
    (c.stickToPayload p).1 =
      Frame.stream (among .syn waiting) ++ p ++ Frame.stream (among .fin waiting) := by
  have syn := holds.queues .syn
  have fin := holds.queues .fin
  simp only [StickyConn.queue] at syn fin
  simp only [StickyConn.stickToPayload, syn, fin, Frame.stream]

theorem Holds.write_waiting (holds : Holds waiting c) (waits : f.Waits) (place : HasPlace waiting f) :
    ∃ c', c.write accepting f.bytes = some ((8, none), c') ∧ Holds (waiting ++ [f]) c' ∧
      c'.wire = c.wire := by
  obtain ⟨q, found⟩ := Option.isSome_iff_exists.mp waits
  have room : (c.queue q).length < queueSize := by simpa [holds.queues q] using place q found
  refine ⟨c.push f.bytes q, ?_, holds.push found, ?_⟩
  · simp only [StickyConn.write, Frame.queueOf_bytes, found, if_pos room]
  · cases q <;> rfl

/-- The goroutine waits for ever. -/
theorem Holds.write_full (holds : Holds waiting c) (full : ¬ HasPlace waiting f) :
    c.write accepting f.bytes = none := by
  obtain ⟨q, found, many⟩ : ∃ q, f.queue = some q ∧ queueSize ≤ (among q waiting).length := by
    simpa [HasPlace] using full
  have room : ¬ (c.queue q).length < queueSize := by simpa [holds.queues q] using many
  simp only [StickyConn.write, Frame.queueOf_bytes, found, if_neg room]

section

variable (all : ∀ f ∈ waiting, f.Waits)

include all

theorem among_syn :
    waiting.filter (fun f => !f.closes) = among .syn waiting := by
  refine filter_congr fun f mem => ?_
  obtain ⟨q, found⟩ := Option.isSome_iff_exists.mp (all f mem)
  cases q <;> simp [Frame.closes, found]

theorem sentBlock_waiting :
    sentBlock waiting = among .syn waiting ++ among .fin waiting := by
  rw [sentBlock, among_syn all]
  rfl

theorem sentBlock_other (other : ¬ f.Waits) :
    sentBlock (waiting ++ [f]) = among .syn waiting ++ f :: among .fin waiting := by
  have stays : f.closes = false := by
    have atOnce : f.queue = none := by simpa [Frame.Waits] using other
    simp [Frame.closes, atOnce]
  have fins : waiting.filter Frame.closes = among .fin waiting := rfl
  rw [sentBlock, filter_append, filter_append, among_syn all, fins]
  simp [stays]

end

theorem Holds.write_other (holds : Holds waiting c) (other : ¬ f.Waits) :
    ∃ c', c.write accepting f.bytes = some ((f.bytes.length, none), c') ∧ Holds [] c' ∧
      c'.wire = c.wire ++ Frame.stream (sentBlock (waiting ++ [f])) := by
  have atOnce : f.queue = none := by simpa [Frame.Waits] using other
  simp only [StickyConn.write, Frame.queueOf_bytes, atOnce, accepting]
  refine ⟨_, rfl, Holds.emptied c f.bytes _, ?_⟩
  rw [take_length, holds.stick f.bytes, sentBlock_other holds.all other]
  simp [StickyConn.stickToPayload]

theorem waitingAfter_waits (waits : f.Waits) (waiting : List Frame) :
    waitingAfter waiting f = waiting ++ [f] :=
  if_pos waits

theorem waitingAfter_other (other : ¬ f.Waits) (waiting : List Frame) :
    waitingAfter waiting f = [] :=
  if_neg other

/-- One frame: the write returns if the frame has a place, and only then. -/
theorem Holds.step (holds : Holds waiting c) (place : HasPlace waiting f) :
    ∃ count c', c.write accepting f.bytes = some ((count, none), c') ∧
      Holds (waitingAfter waiting f) c' ∧
      ∀ rest, c.wire ++ Frame.stream (sentOrder waiting (f :: rest)) =
        c'.wire ++ Frame.stream (sentOrder (waitingAfter waiting f) rest) := by
  by_cases waits : f.Waits
  · obtain ⟨c', ran, holds', same⟩ := holds.write_waiting waits place
    refine ⟨_, c', ran, by rwa [waitingAfter_waits waits], fun rest => ?_⟩
    rw [waitingAfter_waits waits, same, sentOrder, if_pos waits]
  · obtain ⟨c', ran, holds', grown⟩ := holds.write_other waits
    refine ⟨_, c', ran, by rwa [waitingAfter_other waits], fun rest => ?_⟩
    rw [waitingAfter_other waits, grown, sentOrder, if_neg waits, Frame.stream_append,
      append_assoc]

variable {frames : List Frame}

/-- All frames: what was sent, and then what waits, is the order of sending. -/
theorem Holds.writes (holds : Holds waiting c) (fits : Throughout HasPlace waiting frames) :
    ∃ c', c.writes accepting (frames.map Frame.bytes) = some c' ∧
      Holds (waitingAtEnd waiting frames) c' ∧
      c.wire ++ Frame.stream (sentOrder waiting frames) =
        c'.wire ++ Frame.stream (sentOrder (waitingAtEnd waiting frames) []) := by
  induction frames generalizing waiting c with
  | nil => exact ⟨c, rfl, holds, rfl⟩
  | cons f rest ih =>
    obtain ⟨count, c₁, ran, holds₁, sent₁⟩ := holds.step fits.1
    obtain ⟨c₂, ran₂, holds₂, sent₂⟩ := ih holds₁ fits.2
    refine ⟨c₂, ?_, holds₂, (sent₁ rest).trans sent₂⟩
    simp only [map_cons, StickyConn.writes, ran, Option.bind_some, ran₂]

theorem Holds.writes_full (holds : Holds waiting c) (full : ¬ Throughout HasPlace waiting frames) :
    c.writes accepting (frames.map Frame.bytes) = none := by
  induction frames generalizing waiting c with
  | nil => exact (full trivial).elim
  | cons f rest ih =>
    by_cases place : HasPlace waiting f
    · obtain ⟨count, c₁, ran, holds₁, -⟩ := holds.step place
      have later : ¬ Throughout HasPlace (waitingAfter waiting f) rest := fun fits =>
        full ⟨place, fits⟩
      simp only [map_cons, StickyConn.writes, ran, Option.bind_some, ih holds₁ later]
    · simp only [map_cons, StickyConn.writes, holds.write_full place, Option.bind_none]

theorem holds_new : Holds [] {} where
  all := by simp
  queues q := by cases q <;> rfl

/-- A single goroutine that writes frames never waits for ever if and only if every frame that
opens or closes a stream finds fewer than 128 of its kind waiting. -/
theorem writes_return_iff (frames : List Frame) :
    (StickyConn.writes accepting (frames.map Frame.bytes) {}).isSome ↔
      Throughout HasPlace [] frames := by
  constructor
  · intro returned
    by_contra full
    rw [holds_new.writes_full full] at returned
    cases returned
  · intro fits
    obtain ⟨c, ran, -⟩ := holds_new.writes fits
    rw [ran]
    rfl

/-- A frame that opens a stream. -/
def Frame.open (streamID : UInt32) : Frame where
  version := 2
  cmd := .syn
  streamID := streamID
  data := []
  known := .inr rfl
  short := by decide

/-- Frames of one kind in a row need that many places. -/
theorem Throughout.places {q : Queue} (fits : Throughout HasPlace waiting frames)
    (same : ∀ f ∈ frames, f.queue = some q) (before : (among q waiting).length ≤ queueSize) :
    (among q waiting).length + frames.length ≤ queueSize := by
  induction frames generalizing waiting with
  | nil => exact before
  | cons f rest ih =>
    obtain ⟨here, same⟩ := forall_mem_cons.mp same
    have waits : f.Waits := by simp [Frame.Waits, here]
    have place := fits.1 q here
    have grown : (among q (waiting ++ [f])).length = (among q waiting).length + 1 := by
      simp [among, here]
    have rest := ih (waitingAfter_waits waits waiting ▸ fits.2) same (by omega)
    rw [length_cons]
    omega

/-- The goroutine opens 129 streams without data in between. -/
theorem many_streams_block :
    StickyConn.writes accepting
      (((List.range 129).map fun k => Frame.open (2 * k.toUInt32 + 1)).map Frame.bytes) {} =
        none := by
  refine holds_new.writes_full fun fits => ?_
  have many := fits.places (q := .syn) (by simp [Frame.open, Frame.queue]) (by simp [among])
  simp [among, queueSize] at many

/-! ### The order of the frames -/

/-- Splitting a list in two moves nothing if nothing stands before what goes to the front. -/
theorem partition_eq_self_iff {α : Type} (p : α → Bool) (l : List α) :
    l.filter p ++ l.filter (fun a => !p a) = l ↔ l.Pairwise fun a b => p b → p a := by
  induction l with
  | nil => simp
  | cons a l ih =>
    rw [pairwise_cons, ← ih]
    cases front : p a with
    | true => simp [front]
    | false =>
      simp only [front, filter_cons, Bool.false_eq_true, if_false, Bool.not_false, if_true]
      constructor
      · intro same
        -- nothing of the rest goes to the front, or it would now stand first
        have none : l.filter p = [] := by
          cases found : l.filter p with
          | nil => rfl
          | cons b rest =>
            rw [found] at same
            obtain rfl : b = a := (cons.inj same).1
            have holds := (mem_filter.mp (found ▸ mem_cons_self : b ∈ l.filter p)).2
            rw [front] at holds
            cases holds
        rw [none] at same ⊢
        refine ⟨fun b mem passes => ?_, (cons.inj same).2⟩
        have := filter_eq_nil_iff.mp none b mem
        exact (this passes).elim
      · rintro ⟨behind, same⟩
        have none : l.filter p = [] := by
          refine filter_eq_nil_iff.mpr fun b mem passes => ?_
          have := behind b mem passes
          cases this
        rw [none] at same ⊢
        rw [nil_append] at same ⊢
        rw [same]

def ofStream (streamID : UInt32) (frames : List Frame) : List Frame :=
  frames.filter fun f => f.streamID = streamID

theorem sentBlock_perm (block : List Frame) : (sentBlock block).Perm block :=
  perm_append_comm.trans (by simpa using filter_append_perm Frame.closes block)

/-- The frames of a stream that `OvertakesOthers` keeps in order. -/
def Behind (f g : Frame) : Prop := f.streamID = g.streamID → g.closes = false → f.closes = false

theorem overtakesOthers_iff (waiting : List Frame) (f : Frame) :
    OvertakesOthers waiting f ↔ ∀ g ∈ waiting, Behind g f := by
  constructor
  · intro others g mem same first
    by_contra closes
    exact others first g mem (by simpa using closes) same
  · intro behind first g mem closes same
    rw [behind g mem same first] at closes
    cases closes

theorem sentBlock_ordered_iff (block : List Frame) :
    (∀ id, ofStream id (sentBlock block) = ofStream id block) ↔ block.Pairwise Behind := by
  have each : ∀ id, ofStream id (sentBlock block) = ofStream id block ↔
      block.Pairwise fun f g => f.streamID = id → g.streamID = id →
        g.closes = false → f.closes = false := by
    intro id
    have split : ofStream id (sentBlock block) =
        (ofStream id block).filter (fun f => !f.closes) ++
          (ofStream id block).filter fun f => !!f.closes := by
      simp only [ofStream, sentBlock, filter_append, filter_filter, Bool.not_not,
        Bool.and_comm]
    rw [split, partition_eq_self_iff, ofStream, pairwise_filter]
    simp
  constructor
  · intro ordered
    refine pairwise_iff_forall_sublist.mpr fun {f g} both same => ?_
    have pair := pairwise_iff_forall_sublist.mp ((each f.streamID).mp (ordered _)) both
    exact pair rfl same.symm
  · intro ordered id
    refine (each id).mpr (ordered.imp ?_)
    intro f g behind one two
    exact behind (one.trans two.symm)

theorem sentOrder_perm (waiting frames : List Frame) :
    (sentOrder waiting frames).Perm (waiting ++ frames) := by
  induction frames generalizing waiting with
  | nil => simpa [sentOrder] using sentBlock_perm waiting
  | cons f rest ih =>
    rw [append_cons, sentOrder]
    split
    · exact ih (waiting ++ [f])
    · exact (sentBlock_perm _).append (ih [])

theorem sentOrder_ordered_iff (waiting frames : List Frame) :
    (∀ id, ofStream id (sentOrder waiting frames) = ofStream id (waiting ++ frames)) ↔
      waiting.Pairwise Behind ∧ Throughout OvertakesOthers waiting frames := by
  induction frames generalizing waiting with
  | nil => simpa [sentOrder, Throughout] using sentBlock_ordered_iff waiting
  | cons f rest ih =>
    have block : (waiting ++ [f]).Pairwise Behind ↔
        waiting.Pairwise Behind ∧ OvertakesOthers waiting f := by
      rw [overtakesOthers_iff]
      simp [pairwise_append]
    rw [append_cons, sentOrder, Throughout]
    by_cases waits : f.Waits
    · rw [if_pos waits, ih, block, waitingAfter_waits waits, and_assoc]
    have rest := ih []
    simp only [List.Pairwise.nil, true_and, nil_append] at rest
    rw [if_neg waits, waitingAfter_other waits, ← and_assoc, ← block, ← rest,
      ← sentBlock_ordered_iff, ← forall_and]
    -- the two parts have the same lengths on both sides, so they can be compared one by one
    refine forall_congr' fun id => ?_
    have lengths : (ofStream id (sentBlock (waiting ++ [f]))).length =
        (ofStream id (waiting ++ [f])).length := ((sentBlock_perm _).filter _).length_eq
    simp only [ofStream, filter_append] at lengths ⊢
    constructor
    · exact fun same => append_inj same lengths
    · rintro ⟨one, two⟩
      rw [one, two]

/-! ### Closing -/

theorem queueOf_length {p : Bytes} (found : (queueOf p).isSome) : p.length = 8 := by
  unfold queueOf at found
  split at found
  next version cmd rest => grind
  · cases found

theorem padding_take_length (draw : Fin maxPaddingLength) :
    (padding.take draw).length = draw := by
  have size : padding.length = maxPaddingLength + 8 := by
    rw [padding, length_append, length_replicate]
    rfl
  have bound : draw.val < maxPaddingLength := draw.isLt
  rw [length_take, size]
  omega

/-- Padding alone is no header. -/
theorem queueOf_padding (n : Nat) : queueOf (padding.take n) = none := by
  match n with
  | 0 => rfl
  | 1 => rfl
  | n + 2 =>
    simp only [padding, cons_append, take_succ_cons, queueOf]
    rw [if_neg]
    rintro ⟨-, version⟩
    revert version
    decide

theorem queueOf_last (all : ∀ f ∈ frames, f.Waits) (draw : Fin maxPaddingLength) :
    (queueOf (Frame.stream frames ++ padding.take draw)).isSome ↔
      frames.length = 1 ∧ draw.val = 0 := by
  constructor
  · intro found
    cases frames with
    | nil => simp [queueOf_padding] at found
    | cons f rest =>
      have length := queueOf_length found
      simp only [Frame.stream_cons, length_append, Frame.bytes_length,
        padding_take_length] at length
      cases rest with
      | nil => exact ⟨rfl, by omega⟩
      | cons g rest =>
        simp only [Frame.stream_cons, length_append, Frame.bytes_length] at length
        omega
  · rintro ⟨single, none⟩
    obtain ⟨f, rfl⟩ := length_eq_one_iff.mp single
    have waits := all f (by simp)
    simp only [none, Frame.stream_cons, Frame.stream_nil, append_nil, take_zero,
      Frame.queueOf_bytes]
    exact waits

/-- The bytes that reach the wire when frames are written and the connection is closed. -/
def session (frames : List Frame) (draw : Fin maxPaddingLength) : Option Bytes :=
  ((StickyConn.writes accepting (frames.map Frame.bytes) {}).bind
    (StickyConn.close accepting draw)).map StickyConn.wire

/-- All frames are on the wire, each once and every stream in its order, and then padding. -/
def Delivered (frames : List Frame) (draw : Fin maxPaddingLength) : Prop :=
  ∃ order, session frames draw = some (Frame.stream order ++ padding.take draw) ∧
    order.Perm frames ∧ ∀ id, ofStream id order = ofStream id frames

/-- Exactly one header waits when the connection is closed, and no padding is drawn. -/
def LoneHeader (frames : List Frame) (draw : Fin maxPaddingLength) : Prop :=
  (waitingAtEnd [] frames).length = 1 ∧ draw.val = 0

theorem Holds.close (holds : Holds waiting c) (draw : Fin maxPaddingLength) :
    ∃ c', c.close accepting draw = some c' ∧
      c'.wire = if waiting.length = 1 ∧ draw.val = 0 then c.wire
        else c.wire ++ (Frame.stream (sentBlock waiting) ++ padding.take draw) := by
  have left : (c.stickToPayload []).1 = Frame.stream (sentBlock waiting) := by
    rw [holds.stick, sentBlock_waiting holds.all]
    simp
  have allWait : ∀ f ∈ sentBlock waiting, f.Waits := fun f mem =>
    holds.all f ((sentBlock_perm waiting).mem_iff.mp mem)
  have last := queueOf_last allWait draw
  rw [(sentBlock_perm waiting).length_eq] at last
  simp only [StickyConn.close, left, StickyConn.write]
  by_cases lone : waiting.length = 1 ∧ draw.val = 0
  · obtain ⟨q, found⟩ := Option.isSome_iff_exists.mp (last.mpr lone)
    -- the header goes to a channel that has just been emptied
    have empty : ((c.stickToPayload []).2.queue q).length < queueSize := by
      cases q <;> exact Nat.zero_lt_succ _
    simp only [found, if_pos empty, if_pos lone, Option.map_some]
    refine ⟨_, rfl, ?_⟩
    cases q <;> rfl
  · have sent : queueOf (Frame.stream (sentBlock waiting) ++ padding.take draw) = none := by
      rw [← Option.not_isSome_iff_eq_none, last]
      exact lone
    simp only [sent, if_neg lone, accepting, Option.map_some, take_length]
    refine ⟨_, rfl, ?_⟩
    simp [StickyConn.stickToPayload]

variable {draw : Fin maxPaddingLength}

/-- A lone header goes back to its channel when the connection is closed, and is lost. -/
theorem session_lone (fits : Throughout HasPlace [] frames) (lone : LoneHeader frames draw) :
    ∃ wire, session frames draw = some wire ∧
      wire.length < (Frame.stream (sentOrder [] frames)).length := by
  obtain ⟨c, ran, holds, sent⟩ := holds_new.writes fits
  obtain ⟨c', closed, wire⟩ := holds.close draw
  unfold LoneHeader at lone
  rw [if_pos lone] at wire
  refine ⟨c'.wire, by simp only [session, ran, Option.bind_some, closed, Option.map_some], ?_⟩
  obtain ⟨f, left⟩ : ∃ f, sentBlock (waitingAtEnd [] frames) = [f] :=
    length_eq_one_iff.mp ((sentBlock_perm _).length_eq.trans lone.1)
  have length := congrArg length sent
  simp only [nil_append, sentOrder, left, length_append, Frame.stream_cons,
    Frame.bytes_length] at length
  rw [wire, length]
  omega

theorem session_sent (fits : Throughout HasPlace [] frames) (more : ¬ LoneHeader frames draw) :
    session frames draw = some (Frame.stream (sentOrder [] frames) ++ padding.take draw) := by
  obtain ⟨c, ran, holds, sent⟩ := holds_new.writes fits
  obtain ⟨c', closed, wire⟩ := holds.close draw
  unfold LoneHeader at more
  rw [if_neg more, ← append_assoc] at wire
  simp only [nil_append, sentOrder] at sent
  simp only [session, ran, Option.bind_some, closed, Option.map_some, wire, sent]

/-- Everything that was written reaches the wire as it should if and only if no channel runs
full, no frame overtakes the end of its own stream, and it is not a single header that is left
when the connection is closed without padding. -/
theorem delivered_iff (frames : List Frame) (draw : Fin maxPaddingLength) :
    Delivered frames draw ↔ Throughout HasPlace [] frames ∧
      Throughout OvertakesOthers [] frames ∧ ¬ LoneHeader frames draw := by
  have ordered := sentOrder_ordered_iff [] frames
  have perm := sentOrder_perm [] frames
  simp only [List.Pairwise.nil, true_and, nil_append] at ordered perm
  constructor
  · rintro ⟨order, ran, same, streams⟩
    have fits : Throughout HasPlace [] frames := by
      by_contra full
      simp [session, holds_new.writes_full full] at ran
    have more : ¬ LoneHeader frames draw := by
      intro lone
      -- the wire is shorter than the frames together
      obtain ⟨wire, ran', short⟩ := session_lone fits lone
      obtain rfl := Option.some.inj (ran'.symm.trans ran)
      rw [Frame.stream_length_perm (perm.trans same.symm), length_append] at short
      omega
    refine ⟨fits, ordered.mp ?_, more⟩
    obtain sent := Option.some.inj ((session_sent fits more).symm.trans ran)
    rw [Frame.stream_injective (append_cancel_right sent)]
    exact streams
  · rintro ⟨fits, overtakes, more⟩
    exact ⟨sentOrder [] frames, session_sent fits more, perm, ordered.mpr overtakes⟩

/-- A stream is opened, and the connection closed at once without padding: nothing is sent. -/
theorem lone_header_lost :
    session [Frame.open 1] ⟨0, by decide⟩ = some [] ∧ ¬ Delivered [Frame.open 1] ⟨0, by decide⟩ := by
  have nothing : session [Frame.open 1] ⟨0, by decide⟩ = some [] := by decide
  refine ⟨nothing, ?_⟩
  rintro ⟨order, ran, same, -⟩
  obtain rfl := perm_singleton.mp same
  rw [nothing] at ran
  revert ran
  decide

end TrojanGo.Mux
