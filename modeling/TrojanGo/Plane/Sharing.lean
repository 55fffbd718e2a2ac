import TrojanGo.Plane.Client

/-!
# Sharing the outbox and the counters

What one reporter sees the other goroutines do (`Rely`), and what each operation does to the
account of the outbox. Most operations do not touch it at all (`Frame`).
-/
namespace TrojanGo.Plane

open Lib

variable {κ : Type}

/-! ### Interference -/

/-- Nothing was added, or the batch the process started from. -/
def Extends (boot : State) (old new : Batches) : Prop :=
  new = old ∨ (boot.pendingSyncID ≠ "" ∧ boot.pendingSyncID ∉ old ∧
    new = old.insert boot.pendingSyncID boot.pending)

theorem Extends.refl (boot : State) (batches : Batches) : Extends boot batches batches := .inl rfl

variable {boot : State} {s s' : World κ}

theorem Extends.trans {first second third : Batches} (early : Extends boot first second)
    (late : Extends boot second third) :
    Extends boot first third := by
  rcases early with rfl | ⟨named, absent, rfl⟩
  · exact late
  · rcases late with rfl | ⟨_, again, _⟩
    · exact .inr ⟨named, absent, rfl⟩
    · exact absurd (by simp) again

theorem Extends.mem {old new : Batches} (extends_ : Extends boot old new) {id : String}
    (member : id ∈ old) : id ∈ new := by
  rcases extends_ with rfl | ⟨_, _, rfl⟩
  · exact member
  · exact Finmap.mem_insert.mpr (.inr member)

theorem Extends.lookup {old new : Batches} (extends_ : Extends boot old new) {id : String}
    {batch : Amounts} (found : old.lookup id = some batch) :
    new.lookup id = some batch := by
  rcases extends_ with rfl | ⟨_, absent, rfl⟩
  · exact found
  · have other : id ≠ boot.pendingSyncID := by
      rintro rfl
      exact absent (Finmap.mem_of_lookup_eq_some found)
    rw [Finmap.lookup_insert_of_ne _ other]
    exact found

/-- Objects are never taken back and keep their user. -/
def Heap (s s' : World κ) : Prop :=
  ∀ (i : Nat) (m : Meter κ), s.meters[i]? = some m →
    ∃ m' : Meter κ, s'.meters[i]? = some m' ∧ m'.hash = m.hash

theorem Heap.refl (s : World κ) : Heap s s := fun _ m found => ⟨m, found, rfl⟩

theorem Heap.trans {s'' : World κ} (first : Heap s s') (second : Heap s' s'') :
    Heap s s'' := by
  grind [Heap]

/-- What reporter `c` sees the others do between two of its operations. -/
structure Rely (c : κ) (s s' : World κ) : Prop where
  boot : s'.boot = s.boot
  ids : ∀ id, id ∈ s.ids → id ∈ s'.ids
  heap : Heap s s'
  locked : ∀ (i : Nat) (m : Meter κ), s.meters[i]? = some m → m.holder = some (.client c) →
    s'.meters[i]? = some m
  writer : s'.writer = s.writer ∨ (s.writer = none ∧ ¬ s'.Mine c)
  same : s'.Mine c → s'.disk = s.disk ∧ s'.taken = s.taken ∧
    Extends s.boot s.sent s'.sent ∧ Extends s.boot s.acked s'.acked

namespace Rely

variable {c : κ} {s s' s'' : World κ}

theorem refl (c : κ) (s : World κ) : Rely c s s where
  boot := rfl
  ids := fun _ mem => mem
  heap := .refl s
  locked := fun _ _ found _ => found
  writer := .inl rfl
  same := fun _ => ⟨rfl, rfl, .refl _ _, .refl _ _⟩

/-- Once another reporter has written the file, it stays that way. -/
theorem mine (related : Rely c s s') (later : s'.Mine c) : s.Mine c := by
  grind [related.writer, World.Mine]

theorem trans (first : Rely c s s') (second : Rely c s' s'') : Rely c s s'' where
  boot := second.boot.trans first.boot
  ids := fun id mem => second.ids id (first.ids id mem)
  heap := first.heap.trans second.heap
  locked := fun i m found holds => second.locked i m (first.locked i m found holds) holds
  writer := by
    rcases first.writer with early | ⟨nobody, other⟩
    · rcases second.writer with late | ⟨nobody, other⟩
      · exact .inl (late.trans early)
      · exact .inr ⟨early ▸ nobody, other⟩
    · exact .inr ⟨nobody, fun later => other (second.mine later)⟩
  same := by
    intro later
    obtain ⟨disk, taken, sent, acked⟩ := first.same (second.mine later)
    obtain ⟨disk', taken', sent', acked'⟩ := second.same later
    rw [first.boot] at sent' acked'
    exact ⟨disk'.trans disk, taken'.trans taken, sent.trans sent', acked.trans acked'⟩

/-- The writer stays the writer. -/
theorem written (related : Rely c s s') (written : s.writer = some c) : s'.writer = some c := by
  grind [related.writer]

end Rely

variable {memory : State}

theorem Own.rely {c : κ} {owed : Book} (own : Own s memory owed) (related : Rely c s s')
    (inv : Inv s') (mine : s'.Mine c) : Own s' memory owed := by
  obtain ⟨disk, taken, sent, acked⟩ := related.same mine
  -- a batch that was not sent before is the one in the writer's memory
  have fresh : s.boot.pendingSyncID ≠ "" → s.boot.pendingSyncID ∉ s.sent →
      memory.SameBatch s.boot := by
    intro named unsent
    refine (own.boot named).resolve_left fun done => unsent ?_
    obtain ⟨batch, found⟩ := Finmap.mem_iff.mp done
    exact Finmap.mem_of_lookup_eq_some (own.inv.ackedSent _ batch found)
  have new : ∀ id batch, s'.sent.lookup id = some batch → s.sent.lookup id = some batch ∨
      memory.pendingSyncID = id ∧ memory.pending = batch := by
    intro id batch found
    rcases sent with equal | ⟨bootNamed, unsent, equal⟩
    · exact .inl (equal ▸ found)
    · obtain ⟨name, content⟩ := fresh bootNamed unsent
      by_cases here : id = s.boot.pendingSyncID
      · subst here
        rw [equal, Finmap.lookup_insert] at found
        exact .inr ⟨name, content.trans (Option.some.inj found)⟩
      · rw [equal, Finmap.lookup_insert_of_ne _ here] at found
        exact .inl found
  refine ⟨inv, ⟨own.tracks.valid, ?_, ?_⟩, ?_, ?_, ?_⟩
  · intro named
    refine ⟨related.ids _ (own.tracks.known named).1, fun batch found => ?_⟩
    rcases new _ _ found with early | late
    · exact (own.tracks.known named).2 batch early
    · exact late.2.symm
  · intro id batch found
    rcases new id batch found with early | late
    · exact (own.tracks.covers id batch early).imp_left acked.lookup
    · exact .inr late
  · rw [related.boot]
    exact own.boot.mono fun _ => acked.mem
  · unfold World.file
    rw [disk]
    exact own.settled.mono fun _ => acked.mem
  · intro h d
    rw [taken, own.amount]
    rcases acked with equal | ⟨named, absent, equal⟩
    · rw [equal]
    · have same : memory.SameBatch s.boot := (own.boot named).resolve_left absent
      have moved := acknowledged_amount named absent h d
      rw [equal]
      unfold held
      rw [inFlight_of_sameBatch same, inFlight_of_sameBatch same]
      omega

theorem Knows.rely {c : κ} (knows : Knows c memory s) (related : Rely c s s') (inv : Inv s') :
    Knows c memory s' := by
  by_cases writes : s.writer = some c
  · have later := related.written writes
    exact ⟨fun other => absurd later other,
      fun _ => (knows.written writes).rely related inv (.inr later)⟩
  · refine ⟨fun _ => ?_, fun later => absurd later (by grind [related.writer, World.Mine])⟩
    rw [related.boot]
    exact knows.unwritten writes

/-! ### Operations that leave the account alone -/

/-- The step changes at most counters and user maps, and no object that someone else locked. -/
structure Frame (me : Actor κ) (s s' : World κ) : Prop where
  disk : s'.disk = s.disk
  ids : s'.ids = s.ids
  sent : s'.sent = s.sent
  acked : s'.acked = s.acked
  writer : s'.writer = s.writer
  boot : s'.boot = s.boot
  taken : s'.taken = s.taken
  lost : s'.lost = s.lost
  counted : ∀ h d, s.counted h d ≤ s'.counted h d
  heap : Heap s s'
  locked : ∀ (i : Nat) (m : Meter κ) (a : Actor κ), s.meters[i]? = some m → m.holder = some a →
    a ≠ me → s'.meters[i]? = some m

namespace Frame

variable {me : Actor κ} {s s' : World κ}

theorem refl (me : Actor κ) (s : World κ) : Frame me s s :=
  ⟨rfl, rfl, rfl, rfl, rfl, rfl, rfl, rfl, fun _ _ => Nat.le_refl _, .refl s,
    fun _ _ _ found _ _ => found⟩

section

variable (frame : Frame me s s')

include frame

/-- The fields of the account, moved to the later state. -/
theorem tracks {st : State} (tracks : s.Tracks st) : s'.Tracks st := by
  refine ⟨tracks.valid, ?_, ?_⟩
  · unfold World.Known
    rw [frame.ids, frame.sent]
    exact tracks.known
  · rw [frame.sent, frame.acked]
    exact tracks.covers

theorem inv (inv : Inv s) (balanced : s'.Balanced) : Inv s' := by
  have file : s'.file = s.file := by
    unfold World.file
    rw [frame.disk]
  have known : s'.Known s.boot := by
    unfold World.Known
    rw [frame.ids, frame.sent]
    exact inv.bootKnown
  refine ⟨balanced, ?_, ?_, ?_, ?_, ?_, ?_, ?_, ?_, ?_, ?_⟩ <;>
    simp only [file, frame.acked, frame.sent, frame.ids, frame.boot, frame.taken, frame.lost,
      frame.writer]
  exacts [inv.ackedSent, inv.sentNamed, frame.tracks inv.file, inv.bootValid, known,
    inv.bootSettled, inv.lower, inv.upper,
    fun h d => (inv.bounded h d).trans (frame.counted h d), inv.unwritten]

theorem own {owed : Book} (own : Own s memory owed) (inv : Inv s') : Own s' memory owed := by
  refine ⟨inv, frame.tracks own.tracks, ?_, ?_, ?_⟩
  · rw [frame.acked, frame.boot]
    exact own.boot
  · unfold World.file
    rw [frame.acked, frame.disk]
    exact own.settled
  · rw [frame.acked, frame.taken]
    exact own.amount

theorem knows {c : κ} (knows : Knows c memory s) (inv : Inv s') : Knows c memory s' := by
  refine ⟨fun other => ?_, fun written => ?_⟩
  · rw [frame.boot]
    exact knows.unwritten (frame.writer ▸ other)
  · exact frame.own (knows.written (frame.writer ▸ written)) inv

theorem rely {c : κ} (other : me ≠ .client c) : Rely c s s' where
  boot := frame.boot
  ids := fun id mem => by rwa [frame.ids]
  heap := frame.heap
  locked := fun i m found holds => frame.locked i m _ found holds other.symm
  writer := .inl frame.writer
  same := fun _ => ⟨frame.disk, frame.taken, .inl frame.sent, .inl frame.acked⟩

end

/-- Changing an object that nobody else has locked. -/
theorem setMeter {i : Nat} {m m' : Meter κ} (found : s.meters[i]? = some m)
    (open_ : m.holder = none ∨ m.holder = some me) (user : m'.hash = m.hash) :
    Frame me s (s.setMeter i m') := by
  have bound : i < s.meters.length := (List.getElem?_eq_some_iff.mp found).1
  refine ⟨rfl, rfl, rfl, rfl, rfl, rfl, rfl, rfl, fun _ _ => Nat.le_refl _, ?_, ?_⟩ <;>
    simp only [World.setMeter, Heap, List.getElem?_set] <;> grind

end Frame

/-- The operations of `me` that do not touch the outbox, the network or a checkpoint. -/
def Op.Foreign (me : Actor κ) : Op κ → Prop
  | .lock a _ | .unlock a _ | .add a _ _ _ | .subtract a _ _ _ => a = me
  | .clear a _ _ checkpointed => a = me ∧ checkpointed = false
  | .refuse | .replace _ _ | .remove _ | .newSyncID | .post _ _ _ _ => False
  | _ => True

/-- The operations that connections and account changes consist of. -/
def Op.Plain (me : Actor κ) : Op κ → Prop
  | .lock a _ | .unlock a _ | .add a _ _ _ => a = me
  | .clear a _ _ checkpointed => a = me ∧ checkpointed = false
  | .listUsers _ | .mapLoad _ _ | .mapStore _ _ | .mapDelete _ _ | .load _ _ => True
  | _ => False

theorem Op.Plain.foreign {me : Actor κ} {op : Op κ} (plain : op.Plain me) : op.Foreign me := by
  cases op with
  | lock | unlock | add | clear => exact plain
  | listUsers | mapLoad | mapStore | mapDelete | load => trivial
  | _ => exact plain.elim

variable [DecidableEq κ]

theorem Frame.exec (me : Actor κ) {fate : Fate} {op : Op κ} {result : Res op}
    (foreign : op.Foreign me) (done : exec fate s op = some (result, s')) : Frame me s s' := by
  cases exec_effect done with
  | store auth hash =>
    have longer : ∀ (i : Nat) m, s.meters[i]? = some m →
        (s.meters ++ [{ auth := auth, hash := hash }])[i]? = some m := by grind
    exact { Frame.refl me s with
      heap := fun i m found => ⟨m, longer i m found, rfl⟩
      locked := fun i m _ found _ _ => longer i m found }
  | lock found free => exact .setMeter found (.inl free) rfl
  | unlock found holds =>
    cases foreign
    exact .setMeter found (.inr holds) rfl
  | @add _ i m found holds d n =>
    cases foreign
    exact { Frame.setMeter found (.inr holds) (m.put_hash d ((m.count d + n) % word)) with
      counted := fun h d' => by simp [Book.add_apply] }
  | @drop _ i m found holds d =>
    obtain ⟨rfl, -⟩ := foreign
    exact { Frame.setMeter found (.inr holds) (m.put_hash d 0) with }
  | @subtract _ i m found holds d n =>
    cases foreign
    exact { Frame.setMeter found (.inr holds) (m.put_hash d (m.count d - n)) with }
  | take => cases foreign.2
  | refuse | replace | remove | draw | post => exact foreign.elim
  | same | delete | commit | cache => exact { Frame.refl me s with }

end TrojanGo.Plane
