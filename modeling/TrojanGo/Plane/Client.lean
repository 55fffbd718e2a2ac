import TrojanGo.Plane.Books

/-!
# What a reporter of traffic knows

Between two operations the outbox file, the batches sent and the bytes taken from counters fit
together (`Inv`). The reporter that writes the file knows in addition that its memory accounts
for everything taken (`Own`). All states it ever tries to write are safe to find on disk
(`Draft`).
-/
namespace TrojanGo.Plane

open Lib

/-! ### Batches -/

/-- Two states have the same batch in flight. -/
def State.SameBatch (st other : State) : Prop :=
  st.pendingSyncID = other.pendingSyncID ∧ st.pending = other.pending

/-- The batch of `st` is acknowledged or still the batch of `other`. -/
def Settled (acked : Batches) (st other : State) : Prop :=
  st.pendingSyncID ≠ "" → st.pendingSyncID ∈ acked ∨ other.SameBatch st

/-- Every batch sent and not acknowledged is the batch of `st`. -/
def Covers (sent acked : Batches) (st : State) : Prop :=
  ∀ id batch, sent.lookup id = some batch →
    acked.lookup id = some batch ∨ (st.pendingSyncID = id ∧ st.pending = batch)

theorem Settled.refl (acked : Batches) (st : State) : Settled acked st st :=
  fun _ => .inr ⟨rfl, rfl⟩

variable {acked : Batches} {st : State}

theorem inFlight_of_sameBatch {other : State} (same : st.SameBatch other) (h : String) (d : Dir) :
    inFlight acked st h d = inFlight acked other h d := by
  unfold inFlight
  rw [same.1, same.2]

theorem inFlight_of_mem (mem : st.pendingSyncID ∈ acked) (h : String) (d : Dir) :
    inFlight acked st h d = 0 := by
  simp [inFlight, mem]

theorem inFlight_of_idle (idle : st.pendingSyncID = "") (h : String) (d : Dir) :
    inFlight acked st h d = 0 := by
  simp [inFlight, idle]

theorem inFlight_of_open (named : st.pendingSyncID ≠ "") (absent : st.pendingSyncID ∉ acked)
    (h : String) (d : Dir) :
    inFlight acked st h d = (value st.pending h).get d := by
  simp [inFlight, named, absent]

theorem batched_insert {batches : Batches} {id : String} (absent : id ∉ batches) (batch : Amounts)
    (h : String) (d : Dir) :
    batched (batches.insert id batch) h d = (value batch h).get d + batched batches h d := by
  simp [batched, total, Finmap.entries_insert_of_notMem absent]

/-- An acknowledgement moves the batch in flight to the acknowledged ones. -/
theorem acknowledged_amount (named : st.pendingSyncID ≠ "") (absent : st.pendingSyncID ∉ acked)
    (h : String) (d : Dir) :
    batched (acked.insert st.pendingSyncID st.pending) h d +
        inFlight (acked.insert st.pendingSyncID st.pending) st h d =
      batched acked h d + inFlight acked st h d := by
  rw [inFlight_of_mem (by simp), inFlight_of_open named absent, batched_insert absent]
  omega

section

variable {κ : Type}

abbrev World.file (s : World κ) : State := s.disk.content

/-- The batch of a state has a drawn sync ID, under which nothing else was sent. -/
def World.Known (s : World κ) (st : State) : Prop :=
  st.pendingSyncID ≠ "" → st.pendingSyncID ∈ s.ids ∧
    ∀ batch, s.sent.lookup st.pendingSyncID = some batch → batch = st.pending

/-- A state that can be reported from. -/
structure World.Tracks (s : World κ) (st : State) : Prop where
  valid : st.pendingSyncID = "" ↔ st.pending = ∅
  known : s.Known st
  covers : Covers s.sent s.acked st

/-- The invariant of the outbox file. -/
structure Inv (s : World κ) : Prop where
  balanced : s.Balanced
  ackedSent : ∀ id batch, s.acked.lookup id = some batch → s.sent.lookup id = some batch
  sentNamed : ∀ id batch, s.sent.lookup id = some batch → id ≠ "" ∧ id ∈ s.ids
  file : s.Tracks s.file
  bootValid : s.boot.pendingSyncID = "" ↔ s.boot.pending = ∅
  bootKnown : s.Known s.boot
  bootSettled : Settled s.acked s.boot s.file
  -- what was sent or waits to be sent again was taken
  lower : ∀ h d, batched s.acked h d + inFlight s.acked s.file h d ≤ s.taken h d
  -- what was taken is in the file or acknowledged
  upper : ∀ h d, s.taken h d ≤ held s.acked s.file h d
  -- the file may be ahead of the counters, but only by bytes that were counted
  bounded : ∀ h d, held s.acked s.file h d + s.lost h d ≤ s.counted h d
  unwritten : s.writer = none → s.file = s.boot ∧ s.taken = held s.acked s.boot

/-- The memory of the writer accounts for everything taken, and for `owed` bytes that are
about to be taken. -/
structure Own (s : World κ) (memory : State) (owed : Book) : Prop where
  inv : Inv s
  tracks : s.Tracks memory
  boot : Settled s.acked s.boot memory
  settled : Settled s.acked memory s.file
  amount : ∀ h d, s.taken h d + owed h d = held s.acked memory h d

/-- Nothing is owed. -/
def Book.none : Book := fun _ _ => 0

@[simp] theorem Book.none_apply (h : String) (d : Dir) : Book.none h d = 0 := rfl

/-- The reporter may write the file: nobody else has. -/
def World.Mine (s : World κ) (c : κ) : Prop := s.writer = none ∨ s.writer = some c

/-- What a reporter knows about its memory. -/
structure Knows (c : κ) (memory : State) (s : World κ) : Prop where
  unwritten : s.writer ≠ some c → memory = s.boot
  written : s.writer = some c → Own s memory Book.none

variable {s : World κ}

theorem Inv.own_boot (inv : Inv s) (unwritten : s.writer = none) :
    Own s s.boot Book.none := by
  obtain ⟨loaded, amount⟩ := inv.unwritten unwritten
  refine ⟨inv, ?_, Settled.refl _ _, ?_, ?_⟩
  · rw [← loaded]
    exact inv.file
  · rw [loaded]
    exact Settled.refl _ _
  · intro h d
    rw [amount]
    rfl

variable {memory : State}

theorem Knows.own {c : κ} (knows : Knows c memory s) (inv : Inv s) (mine : s.Mine c) :
    Own s memory Book.none := by
  rcases mine with unwritten | written
  · have loaded : memory = s.boot := knows.unwritten (by simp [unwritten])
    rw [loaded]
    exact inv.own_boot unwritten
  · exact knows.written written

theorem Knows.valid {c : κ} [DecidableEq κ] (knows : Knows c memory s) (inv : Inv s) :
    memory.pendingSyncID = "" ↔ memory.pending = ∅ := by
  by_cases written : s.writer = some c
  · exact (knows.written written).tracks.valid
  · rw [knows.unwritten written]
    exact inv.bootValid

/-! ### Drafts -/

/-- The bytes in the counters of one object. -/
def Meter.amounts (m : Meter κ) : Book := fun h d => if h = m.hash then m.count d else 0

/-- What a reporter may try to write, and how many bytes it is about to take with it. -/
inductive Draft (c : κ) (s : World κ) (memory : State) : State → Book → Prop where
  /-- the counters of one locked object are added to the queue -/
  | collect {st : State} {i : Nat} {m : Meter κ} (found : s.meters[i]? = some m)
      (locked : m.holder = some (.client c)) (same : st.SameBatch memory)
      (more : ∀ h d, (value st.queued h).get d = (value memory.queued h).get d + m.amounts h d) :
      Draft c s memory st m.amounts
  /-- the queue becomes a batch under a fresh sync ID -/
  | freeze {st : State} (idle : memory.pendingSyncID = "") (drawn : st.pendingSyncID ∈ s.ids)
      (unsent : st.pendingSyncID ∉ s.sent) (other : st.pendingSyncID ≠ s.boot.pendingSyncID)
      (moved : st.pending = memory.queued) (emptied : st.queued = ∅) :
      Draft c s memory st Book.none
  /-- an acknowledged batch is dropped -/
  | discard {st : State}
      (done : memory.pendingSyncID = "" ∨ memory.pendingSyncID ∈ s.acked)
      (idle : st.pendingSyncID = "") (kept : st.queued = memory.queued) :
      Draft c s memory st Book.none

namespace Draft

variable {c : κ} {s : World κ} {memory st : State} {extra : Book}

section

variable (draft : Draft c s memory st extra)

include draft

/-- A batch that is not acknowledged stays. -/
theorem settled : Settled s.acked memory st := by
  intro named
  cases draft <;> grind

theorem boot_settled (boot : Settled s.acked s.boot memory) :
    Settled s.acked s.boot st := by
  have settled := draft.settled
  grind [Settled, State.SameBatch]

theorem known (known : s.Known memory) : s.Known st := by
  intro named
  cases draft with
  | freeze idle drawn unsent =>
    refine ⟨drawn, fun batch found => ?_⟩
    exact absurd (Finmap.mem_of_lookup_eq_some found) unsent
  | collect | discard => grind [World.Known, State.SameBatch]

theorem covers (inv : Inv s) (covers : Covers s.sent s.acked memory) :
    Covers s.sent s.acked st := by
  intro id batch found
  rcases covers id batch found with done | here
  · exact .inl done
  · have named : memory.pendingSyncID ≠ "" := here.1 ▸ (inv.sentNamed id batch found).1
    rcases draft.settled named with done | kept
    · -- the acknowledged batch of this sync ID is the one that was sent
      obtain ⟨other, acked⟩ := Finmap.mem_iff.mp done
      rw [here.1] at acked
      have agrees := inv.ackedSent id other acked
      rw [found] at agrees
      exact .inl (by rw [acked, agrees])
    · exact .inr ⟨kept.1.trans here.1, kept.2.trans here.2⟩

/-- Bytes about to be taken are still in a counter. -/
theorem extra_le_live (h : String) (d : Dir) :
    extra h d ≤ s.live h d := by
  cases draft with
  | collect found => grind [Meter.amounts, World.count_le_live]
  | freeze | discard => exact Nat.zero_le _

/-- A draft accounts for what the memory accounts for, and for the extra bytes. -/
theorem amount (inv : Inv s) (valid : st.pendingSyncID = "" ↔ st.pending = ∅) (h : String) (d : Dir) :
    held s.acked st h d = held s.acked memory h d + extra h d := by
  unfold held
  cases draft with
  | collect found locked same more =>
    rw [more, inFlight_of_sameBatch same]
    omega
  | freeze idle drawn unsent other moved emptied =>
    have empty : (value st.queued h).get d = 0 := by simp [emptied]
    rw [inFlight_of_idle idle, empty]
    by_cases named : st.pendingSyncID = ""
    · -- an empty queue gives no batch
      have nothing : (value memory.queued h).get d = 0 := by
        rw [← moved, valid.mp named]
        simp
      rw [inFlight_of_idle named, nothing, Book.none_apply]
      omega
    · have absent : st.pendingSyncID ∉ s.acked := by
        intro mem
        obtain ⟨batch, acked⟩ := Finmap.mem_iff.mp mem
        exact unsent (Finmap.mem_of_lookup_eq_some (inv.ackedSent _ batch acked))
      rw [inFlight_of_open named absent, moved, Book.none_apply]
      omega
  | discard done idle kept =>
    have settled : inFlight s.acked memory h d = 0 := by
      rcases done with named | mem
      · exact inFlight_of_idle named h d
      · exact inFlight_of_mem mem h d
    rw [inFlight_of_idle idle, settled, kept, Book.none_apply]
    omega

/-- A draft has at most one new batch in flight, made of bytes the memory accounted for. -/
theorem lower (inv : Inv s) (valid : st.pendingSyncID = "" ↔ st.pending = ∅) (h : String) (d : Dir) :
    batched s.acked h d + inFlight s.acked st h d ≤ held s.acked memory h d := by
  have total := draft.amount inv valid h d
  unfold held at *
  cases draft with
  | collect found locked same more =>
    rw [inFlight_of_sameBatch same]
    omega
  | freeze | discard =>
    rw [Book.none_apply] at total
    omega

end

/-- Writing a draft is safe, whether or not the reporter learns that it took effect. -/
theorem write {disk : Disk} (draft : Draft c s memory disk.content extra)
    (own : Own s memory Book.none) :
    Inv (s.write c disk) ∧ Own (s.write c disk) memory Book.none ∧
      Own (s.write c disk) disk.content extra := by
  have inv := own.inv
  have valid := disk.content_valid
  have total : ∀ h d, held s.acked disk.content h d = s.taken h d + extra h d := by
    intro h d
    rw [draft.amount inv valid, ← own.amount, Book.none_apply, Nat.add_zero]
  have tracks : s.Tracks disk.content :=
    ⟨valid, draft.known own.tracks.known, draft.covers inv own.tracks.covers⟩
  have written : Inv (s.write c disk) :=
    { inv with
      file := ⟨valid, tracks.known, tracks.covers⟩
      bootSettled := draft.boot_settled own.boot
      lower := by
        intro h d
        have below := draft.lower inv valid h d
        rw [← own.amount, Book.none_apply, Nat.add_zero] at below
        exact below
      upper := fun h d => (Nat.le_add_right _ _).trans_eq (total h d).symm
      bounded := by
        intro h d
        change held s.acked disk.content h d + s.lost h d ≤ s.counted h d
        have balance := inv.balanced h d
        have room := draft.extra_le_live h d
        rw [total]
        omega
      unwritten := fun nobody => by cases nobody }
  refine ⟨written, ?_, ?_⟩
  · exact ⟨written, ⟨own.tracks.valid, own.tracks.known, own.tracks.covers⟩, own.boot,
      draft.settled, own.amount⟩
  · exact ⟨written, ⟨valid, tracks.known, tracks.covers⟩, draft.boot_settled own.boot,
      Settled.refl _ _, fun h d => (total h d).symm⟩

end Draft

/-! ### Sending a batch -/

def World.posted (s : World κ) (st : State) (accepted : Bool) : World κ :=
  { s with
    sent := s.sent.insert st.pendingSyncID st.pending
    acked := if accepted then s.acked.insert st.pendingSyncID st.pending else s.acked }

/-- Acknowledged batches stay acknowledged. -/
theorem mem_acked_posted {accepted : Bool} {id : String} (mem : id ∈ s.acked) :
    id ∈ (s.posted st accepted).acked := by
  cases accepted with
  | true => exact Finmap.mem_insert.mpr (.inr mem)
  | false => exact mem

theorem Settled.mono {acked' : Batches} {other : State} (grows : ∀ id, id ∈ acked → id ∈ acked')
    (settled : Settled acked st other) :
    Settled acked' st other := by
  intro named
  rcases settled named with done | same
  · exact .inl (grows _ done)
  · exact .inr same

section Posted

variable {s : World κ} {st other : State}

/-- Sending an acknowledged batch again changes nothing. -/
theorem posted_of_acked (inv : Inv s) (named : st.pendingSyncID ≠ "") (known : s.Known st)
    (done : st.pendingSyncID ∈ s.acked) (accepted : Bool) : s.posted st accepted = s := by
  obtain ⟨batch, acked⟩ := Finmap.mem_iff.mp done
  have sent := inv.ackedSent _ batch acked
  have same := (known named).2 batch sent
  subst same
  simp [World.posted, insert_of_lookup sent, insert_of_lookup acked]

theorem lookup_acked_posted {id : String} (accepted : Bool) :
    (s.posted st accepted).acked.lookup id =
      if accepted ∧ id = st.pendingSyncID then some st.pending else s.acked.lookup id := by
  cases accepted <;> simp only [World.posted] <;>
    grind [Finmap.lookup_insert, Finmap.lookup_insert_of_ne]

theorem known_posted (known : s.Known other)
    (agrees : other.pendingSyncID = st.pendingSyncID → other.pending = st.pending)
    (accepted : Bool) : (s.posted st accepted).Known other := by
  intro named
  refine ⟨(known named).1, fun batch found => ?_⟩
  grind [World.posted, World.Known, Finmap.lookup_insert, Finmap.lookup_insert_of_ne]

theorem covers_posted (covers : Covers s.sent s.acked other) (same : other.SameBatch st)
    (accepted : Bool) : Covers (s.posted st accepted).sent (s.posted st accepted).acked other := by
  intro id batch found
  have before := covers id batch
  rw [lookup_acked_posted]
  grind [World.posted, State.SameBatch, Finmap.lookup_insert, Finmap.lookup_insert_of_ne]

section

variable (named : st.pendingSyncID ≠ "")
  (absent : st.pendingSyncID ∉ s.acked) (same : other.SameBatch st)

include named absent same

/-- The answer moves the batch from one side of the account to the other. -/
theorem amount_posted (accepted : Bool) (h : String) (d : Dir) :
    batched (s.posted st accepted).acked h d + inFlight (s.posted st accepted).acked other h d =
      batched s.acked h d + inFlight s.acked other h d := by
  rw [inFlight_of_sameBatch same, inFlight_of_sameBatch same]
  cases accepted with
  | true => exact acknowledged_amount named absent h d
  | false => rfl

theorem held_posted (accepted : Bool) :
    held (s.posted st accepted).acked other = held s.acked other := by
  funext h d
  unfold held
  rw [amount_posted named absent same]

end

end Posted

/-- A reporter may send the batch of its memory, or of the file the process started from. -/
theorem Inv.posted (inv : Inv s) (named : st.pendingSyncID ≠ "") (known : s.Known st)
    (settled : Settled s.acked st s.file) (boot : Settled s.acked s.boot st) (accepted : Bool) :
    Inv (s.posted st accepted) := by
  by_cases done : st.pendingSyncID ∈ s.acked
  · rw [posted_of_acked inv named known done]
    exact inv
  have same : s.file.SameBatch st := (settled named).resolve_left done
  have bootAgrees : s.boot.pendingSyncID = st.pendingSyncID → s.boot.pending = st.pending := by
    intro equal
    rcases boot (equal ▸ named) with acked | batch
    · exact absurd (equal ▸ acked) done
    · exact batch.2.symm
  have total := held_posted named done same accepted
  have absent : s.acked.lookup st.pendingSyncID = none := Finmap.lookup_eq_none.mpr done
  exact
    { balanced := inv.balanced
      ackedSent := by
        intro id batch found
        rw [lookup_acked_posted] at found
        grind [inv.ackedSent, World.posted, Finmap.lookup_insert, Finmap.lookup_insert_of_ne]
      sentNamed := by
        have before := inv.sentNamed
        have drawn := (known named).1
        grind [World.posted, Finmap.lookup_insert, Finmap.lookup_insert_of_ne]
      file := ⟨inv.file.valid, known_posted inv.file.known (fun _ => same.2) accepted,
        covers_posted inv.file.covers same accepted⟩
      bootValid := inv.bootValid
      bootKnown := known_posted inv.bootKnown bootAgrees accepted
      bootSettled := inv.bootSettled.mono fun _ => mem_acked_posted
      lower := fun h d =>
        (amount_posted named done same accepted h d).trans_le (inv.lower h d)
      upper := fun h d => (inv.upper h d).trans_eq (congrFun₂ total h d).symm
      bounded := by
        intro h d
        change held (s.posted st accepted).acked s.file h d + s.lost h d ≤ s.counted h d
        rw [total]
        exact inv.bounded h d
      unwritten := by
        intro nobody
        obtain ⟨loaded, taken⟩ := inv.unwritten nobody
        exact ⟨loaded, taken.trans (held_posted named done (loaded ▸ same) accepted).symm⟩ }

theorem Own.posted (own : Own s memory Book.none) (named : memory.pendingSyncID ≠ "")
    (accepted : Bool) :
    Own (s.posted memory accepted) memory Book.none := by
  have inv := own.inv.posted named own.tracks.known own.settled own.boot accepted
  by_cases done : memory.pendingSyncID ∈ s.acked
  · rwa [posted_of_acked own.inv named own.tracks.known done]
  · refine ⟨inv, ⟨own.tracks.valid, known_posted own.tracks.known (fun _ => rfl) accepted,
      covers_posted own.tracks.covers ⟨rfl, rfl⟩ accepted⟩, own.boot.mono fun _ => mem_acked_posted,
      own.settled.mono fun _ => mem_acked_posted, fun h d => ?_⟩
    rw [held_posted named done ⟨rfl, rfl⟩]
    exact own.amount h d

end

end TrojanGo.Plane
