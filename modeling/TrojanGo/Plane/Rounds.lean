import TrojanGo.Plane.Sharing

/-!
# Sync rounds

One specification per program. Each keeps the memory of the reporter in step with the file through
every failure.
-/
namespace TrojanGo.Plane

open Lib Prog

variable {κ μ : Type}

/-! ### The terms of a reporter -/

/-- The outbox file is replaced or removed only while nobody else has done so. -/
def SoleWriter (s : World κ) : Op κ → Prop
  | .replace c _ | .remove c => s.Mine c
  | _ => True

def Guarantee (me : Actor κ) (s s' : World κ) : Prop := ∀ c, me ≠ .client c → Rely c s s'

/-- The terms on which a reporter shares the process. -/
def terms (c : κ) : Contract (World κ) (Op κ) :=
  ⟨SoleWriter, Inv, Rely c, Guarantee (.client c)⟩

theorem terms_lawful (c : κ) : (terms c).Lawful :=
  ⟨Rely.refl c, fun _ _ _ => Rely.trans⟩

variable {c : κ} {memory st : State}

theorem knows_stable : (terms c).Stable (Knows c memory) :=
  fun _ _ related inv knows => knows.rely related inv

/-- An object locked by the reporter. -/
structure Holds (c : κ) (i : Nat) (m : Meter κ) (s : World κ) : Prop where
  found : s.meters[i]? = some m
  locked : m.holder = some (.client c)

theorem holds_stable {i : Nat} {m : Meter κ} : (terms c).Stable (Holds c i m) :=
  fun _ _ related _ holds => ⟨related.locked i m holds.found holds.locked, holds.locked⟩

/-- The file holds the state, which accounts for the taken bytes and those owed. -/
structure Saved (c : κ) (st : State) (owed : Book) (s : World κ) : Prop where
  written : s.writer = some c
  content : s.file = st
  own : Own s st owed

theorem saved_stable {owed : Book} : (terms c).Stable (Saved c st owed) := by
  intro s s' related inv saved
  have written := related.written saved.written
  refine ⟨written, ?_, saved.own.rely related inv (.inr written)⟩
  unfold World.file
  rw [(related.same (.inr written)).1]
  exact saved.content

variable {s : World κ}

theorem Saved.knows (saved : Saved c st Book.none s) : Knows c st s :=
  ⟨fun other => absurd saved.written other, fun _ => saved.own⟩

theorem Guarantee.refl (me : Actor κ) (s : World κ) : Guarantee me s s := fun c _ => .refl c s

theorem write_guarantee (mine : s.Mine c) (disk : Disk) :
    Guarantee (.client c) s (s.write c disk) := by
  intro j other
  have different : c ≠ j := fun same => other (by rw [same])
  have later : ¬ (s.write c disk).Mine j := by
    rintro (nobody | same)
    · cases nobody
    · exact different (Option.some.inj same)
  refine { Rely.refl j s with writer := ?_, same := fun mine => absurd mine later }
  rcases mine with nobody | written
  · exact .inr ⟨nobody, later⟩
  · exact .inl written.symm

/-! ### What a save and a checkpoint leave -/

/-- What a save leaves: on success the file holds the new state, on failure the memory still
accounts for everything. The assertion `frame` is about other things than the file. -/
def SaveEnds (c : κ) (memory st : State) (extra : Book) (frame : World κ → Prop) :
    Except String Unit → World κ → Prop
  | .ok (), s => Saved c st extra s ∧ frame s
  | .error _, s => Knows c memory s ∧ frame s

theorem normalize_of_isEmpty (empty : st.normalize.isEmpty) :
    st.normalize = Disk.absent.content := by
  obtain ⟨unnamed, pending, queued⟩ := empty
  cases st
  simp_all [State.normalize, Disk.content]

/-- What the reporter knows of its memory, as the file would hold it. -/
abbrev KnowsMemory (o : Owner μ) (c : κ) (memory : μ) : World κ → Prop :=
  Knows c (o.state memory).normalize

/-- The queue after the counters of one object are added to it. -/
abbrev collected (queued : Amounts) (m : Meter κ) : Amounts :=
  queued.insert m.hash
    ⟨(value queued m.hash).up + m.recv, (value queued m.hash).down + m.sent⟩

theorem collected_amount (queued : Amounts) (m : Meter κ) (h : String) (d : Dir) :
    (value (collected queued m) h).get d = (value queued h).get d + m.amounts h d := by
  unfold Meter.amounts
  by_cases user : h = m.hash
  · subst user
    rw [value_insert, if_pos rfl]
    cases d <;> rfl
  · rw [value_insert_ne _ _ user, if_neg user, Nat.add_zero]

theorem amounts_put (m : Meter κ) (d : Dir) (h : String) (d' : Dir) :
    m.amounts h d' = (m.put d 0).amounts h d' + if h = m.hash ∧ d' = d then m.count d else 0 := by
  grind [Meter.amounts, Meter.put_hash, Meter.put_count]

theorem amounts_cleared (m : Meter κ) : ((m.put .down 0).put .up 0).amounts = Book.none := by
  funext h d
  unfold Meter.amounts
  split
  · cases d <;> rfl
  · rfl

variable {s' : World κ} {users : List (Nat × String)}

/-- The users of a listing are objects of the heap. -/
def Listed (users : List (Nat × String)) (s : World κ) : Prop :=
  ∀ user ∈ users, ∃ m : Meter κ, s.meters[user.1]? = some m ∧ m.hash = user.2

theorem Listed.heap (listed : Listed users s) (grown : Heap s s') :
    Listed users s' := by
  grind [Listed, Heap]

theorem listed_of_visit {auth : Nat} {order : List Nat} (visited : s.visit auth order = some users) :
    Listed users s := by
  induction order generalizing users with
  | nil => grind [World.visit, Listed]
  | cons i rest ih => grind [World.visit, Listed, Option.map_eq_some_iff]

/-! ### Single operations -/

variable [DecidableEq κ] {fate : Fate}

/-- An operation outside the account keeps everything a reporter knows. -/
theorem foreign_step (me : Actor κ) {op : Op κ} {result : Res op} (inv : Inv s)
    (foreign : op.Foreign me) (done : exec fate s op = some (result, s')) :
    Inv s' ∧ Guarantee me s s' ∧ Frame me s s' := by
  have frame := Frame.exec me foreign done
  exact ⟨frame.inv inv (Balanced.exec inv.balanced done), fun _ other => frame.rely other, frame⟩

theorem replace_cases {stored : StoredState} {result : Bool}
    (done : exec fate s (.replace c stored) = some (result, s')) :
    s' = s.write c (.stored stored) ∨ (result = false ∧ s' = s) := by
  simp only [exec] at done
  grind

theorem remove_cases {result : Removal} (done : exec fate s (.remove c) = some (result, s')) :
    s' = s.write c .absent ∨ (result = .failed ∧ s' = s) := by
  simp only [exec] at done
  grind

theorem newSyncID_cases {result : Option String} (done : exec fate s .newSyncID = some (result, s')) :
    (result = none ∧ s' = s) ∨
      ∃ id, result = some id ∧ id ≠ "" ∧ id ∉ s.ids ∧ s' = { s with ids := id :: s.ids } := by
  simp only [exec] at done
  grind

theorem post_cases {id : String} {batch : Amounts} {accepts : NodeSync.Response → Bool}
    {result : Option NodeSync.Response}
    (done : exec fate s (.post c id batch accepts) = some (result, s')) :
    (batch = ∅ ∧ s' = s) ∨ (batch ≠ ∅ ∧
      s' = s.posted { pendingSyncID := id, pending := batch } (result.any accepts)) := by
  simp only [exec] at done
  grind [World.posted]

/-! ### The outbox file -/

variable {known : World κ → Prop}

/-- Operations on directories and temporary files change nothing. -/
theorem wp_attempts (stable : (terms c).Stable known) (texts : List String) (holds : known s) :
    wp exec (terms c) (attempts texts) (fun _ => known) s := by
  have only : ∀ texts : List String,
      (attempts texts : Routine κ _).Only fun op => op = .attempt := by
    intro texts
    induction texts with
    | nil => exact .ret _
    | cons text rest ih =>
      refine .step rfl fun ok => ?_
      cases ok with
      | true => exact ih
      | false => exact .ret _
  refine wp_only (only texts) stable holds ?_
  rintro s _ inv known _ rfl fate result s' done
  cases done
  exact ⟨inv, .refl _ s, known⟩

section Save

variable {extra : Book} {frame : World κ → Prop}
  (writes : ∀ s disk, s.Mine c → frame s → frame (s.write c disk)) (knows : Knows c memory s)
  (framed : frame s)

/-- In every state that satisfies the assertion, the account can be taken over by the new state. -/
abbrev Drafts (c : κ) (memory st : State) (extra : Book) (frame : World κ → Prop) : Prop :=
  ∀ s, Inv s → frame s → s.Mine c → Draft c s memory st extra

include writes knows framed

omit [DecidableEq κ] in
/-- After a write that took effect both outcomes are possible. -/
theorem written_step (disk : Disk) (draft : Drafts c memory disk.content extra frame)
    (inv : Inv s) (mine : s.Mine c) :
    Inv (s.write c disk) ∧ Guarantee (.client c) s (s.write c disk) ∧
      Knows c memory (s.write c disk) ∧ Saved c disk.content extra (s.write c disk) ∧
      frame (s.write c disk) := by
  obtain ⟨kept, own, ahead⟩ := (draft s inv framed mine).write (knows.own inv mine)
  exact ⟨kept, write_guarantee mine disk, ⟨fun other => absurd rfl other, fun _ => own⟩,
    ⟨rfl, rfl, ahead⟩, writes s disk mine framed⟩

omit writes in
/-- A write is followed by attempts to make it durable. -/
theorem wp_durable (stable : (terms c).Stable frame) (saved : Saved c st extra s)
    (texts : List String) :
    wp exec (terms c) (attempts texts) (SaveEnds c memory st extra frame) s := by
  refine wp_mono ?_ (wp_attempts ((knows_stable.and saved_stable).and stable) texts
    ⟨⟨knows, saved⟩, framed⟩)
  rintro (reason | ok) s _ ⟨⟨knows, saved⟩, framed⟩
  · exact ⟨knows, framed⟩
  · exact ⟨saved, framed⟩

theorem wp_removeOutbox (stable : (terms c).Stable frame)
    (draft : Drafts c memory Disk.absent.content extra frame) :
    wp exec (terms c) (removeOutbox c)
      (SaveEnds c memory Disk.absent.content extra frame) s := by
  refine wp_op (knows_stable.and stable) ⟨knows, framed⟩ ?_
  rintro s inv ⟨knows, framed⟩ mine fate result s' done
  rcases remove_cases done with rfl | ⟨rfl, rfl⟩
  · obtain ⟨kept, guarantee, knows, saved, framed⟩ :=
      written_step writes knows framed .absent draft inv mine
    refine ⟨kept, guarantee, ?_⟩
    cases result with
    | missing =>
      exact wp_value (saved_stable.and stable) ⟨saved, framed⟩
    | failed =>
      exact wp_value (knows_stable.and stable) ⟨knows, framed⟩
    | removed => exact wp_durable knows framed stable saved _
  · refine ⟨inv, .refl _ s', ?_⟩
    exact wp_value (knows_stable.and stable) ⟨knows, framed⟩

theorem wp_saveOutbox (stable : (terms c).Stable frame)
    (draft : Drafts c memory st.normalize extra frame) :
    wp exec (terms c) (saveOutbox c st)
      (SaveEnds c memory st.normalize extra frame) s := by
  have failed : ∀ (reason : String) (s : World κ), Knows c memory s ∧ frame s →
      wp exec (terms c) (pure (.error reason) : Routine κ (Except String Unit))
        (SaveEnds c memory st.normalize extra frame) s :=
    fun _ _ known => wp_value (knows_stable.and stable) known
  unfold saveOutbox
  split
  · refine wp_op (knows_stable.and stable) ⟨knows, framed⟩ ?_
    intro s inv known _ fate result s' done
    cases done
    have kept : Inv { s with refused := true } :=
      { inv with file := ⟨inv.file.valid, inv.file.known, inv.file.covers⟩ }
    have related : ∀ c, Rely c s { s with refused := true } := fun c => { Rely.refl c s with }
    exact ⟨kept, fun c _ => related c,
      failed _ _ ((knows_stable.and stable) s _ (related c) kept known)⟩
  next checked =>
    split
    next empty =>
      rw [normalize_of_isEmpty empty] at draft ⊢
      exact wp_removeOutbox writes knows framed stable draft
    · refine wp_seq (terms_lawful c)
        (wp_attempts (knows_stable.and stable) _ ⟨knows, framed⟩) ?_
      rintro (reason | ok) s _ known
      · exact failed _ s known
      · refine wp_op (knows_stable.and stable) known ?_
        rintro s inv ⟨knows, framed⟩ mine fate result s' done
        rcases replace_cases done with rfl | ⟨rfl, rfl⟩
        · obtain ⟨kept, guarantee, knows, saved, framed⟩ := written_step writes knows framed
            (.stored ⟨st.normalize, checked, rfl⟩) draft inv mine
          refine ⟨kept, guarantee, ?_⟩
          cases result with
          | true => exact wp_durable knows framed stable saved _
          | false => exact failed _ _ ⟨knows, framed⟩
        · exact ⟨inv, .refl _ s', failed _ _ ⟨knows, framed⟩⟩

end Save

/-! ### Taking the counters of one object -/

section Take

variable (o : Owner μ) {memory : μ} {i : Nat} {m : Meter κ}

def CheckpointEnds (c : κ) (i : Nat) (m : Meter κ) (r : μ × Option String) (s : World κ) : Prop :=
  Holds c i m s ∧
    match r.2 with
    | some _ => KnowsMemory o c r.1 s
    | none => Saved c (o.state r.1).normalize m.amounts s

theorem wp_checkpoint (knows : KnowsMemory o c memory s) (holds : Holds c i m s) :
    wp exec (terms c) (checkpoint o c m.hash memory m.sent m.recv)
      (CheckpointEnds o c i m) s := by
  unfold checkpoint
  simp only
  split
  · exact wp_value (holds_stable.and knows_stable) ⟨holds, knows⟩
  have draft : Drafts c (o.state memory).normalize
      (o.state (o.setQueued memory (collected (o.queued memory) m))).normalize m.amounts
      (Holds c i m) := by
    intro s _ holds _
    rw [o.state_setQueued, o.queued_eq]
    exact .collect holds.found holds.locked ⟨rfl, rfl⟩ fun h d => collected_amount _ m h d
  refine wp_seq (terms_lawful c) (wp_saveOutbox
    (fun _ _ _ holds => ⟨holds.found, holds.locked⟩) knows holds holds_stable draft) ?_
  rintro (reason | ok) s inv ⟨known, holds⟩
  · -- the queue entry is put back
    refine wp_return (holds_stable.and knows_stable) ⟨holds, known⟩ ?_
    rintro s _ ⟨holds, known⟩
    refine ⟨holds, ?_⟩
    have readBack : ∀ q, o.queued (o.setQueued memory q) = q := by
      intro q
      rw [o.queued_eq, o.state_setQueued]
    simp only [readBack, restore_insert, o.setQueued_twice]
    exact known
  · exact wp_value (holds_stable.and saved_stable) ⟨holds, known⟩

/-- Clearing a direction that the file already accounts for. -/
theorem clear_step {d : Dir} {result : Unit} (saved : Saved c st m.amounts s)
    (holds : Holds c i m s) (done : exec fate s (.clear (.client c) i d true) = some (result, s')) :
    Inv s' ∧ Guarantee (.client c) s s' ∧ Saved c st (m.put d 0).amounts s' ∧
      Holds c i (m.put d 0) s' := by
  have inv := saved.own.inv
  have balanced := Balanced.exec inv.balanced done
  cases exec_effect done
  case same quiet => exact absurd trivial quiet
  rename_i m' _ found
  obtain rfl : m = m' := Option.some.inj (holds.found.symm.trans found)
  simp only at balanced ⊢
  have frame : Frame (.client c) s (s.setMeter i (m.put d 0)) :=
    .setMeter found (.inr holds.locked) (m.put_hash d 0)
  have moved : ∀ h d', s.taken.add m.hash d (m.count d) h d' + (m.put d 0).amounts h d' =
      held s.acked st h d' := by
    intro h d'
    have before := saved.own.amount h d'
    rw [amounts_put m d] at before
    rw [Book.add_apply]
    omega
  have kept : Inv { s.setMeter i (m.put d 0) with
      taken := s.taken.add m.hash d (m.count d) } :=
    { inv with
      balanced := balanced
      file := ⟨inv.file.valid, inv.file.known, inv.file.covers⟩
      lower := by
        intro h d'
        refine Nat.le_trans (inv.lower h d') ?_
        simp only [Book.add_apply]
        omega
      upper := by
        intro h d'
        change s.taken.add m.hash d (m.count d) h d' ≤ held s.acked s.file h d'
        rw [saved.content, ← moved]
        omega
      unwritten := fun nobody => by cases saved.written.symm.trans nobody }
  refine ⟨kept, ?_, ⟨saved.written, saved.content, kept, ?_, saved.own.boot, saved.own.settled,
    moved⟩, ?_, ?_⟩
  · intro j other
    have later := frame.rely other
    refine ⟨rfl, later.ids, later.heap, later.locked, .inl rfl, ?_⟩
    rintro (nobody | same)
    · cases saved.written.symm.trans nobody
    · cases saved.written.symm.trans same
      exact absurd rfl other
  · exact ⟨saved.own.tracks.valid, saved.own.tracks.known, saved.own.tracks.covers⟩
  · have bound : i < s.meters.length := (List.getElem?_eq_some_iff.mp found).1
    simp [World.setMeter, bound]
  · rw [Meter.put_holder]
    exact holds.locked

variable {α : Type}

/-- Reading a counter of a locked object. -/
theorem wp_load {post : α → World κ → Prop} {next : Nat → Routine κ α} {d : Dir}
    (stable : (terms c).Stable known) (locked : ∀ s, known s → Holds c i m s)
    (rest : ∀ s, known s → wp exec (terms c) (next (m.count d)) post s) (holds : known s) :
    wp exec (terms c) (load i d >>= next) post s := by
  refine wp_op stable holds ?_
  intro s inv holds _ fate result s' done
  obtain ⟨m', found, equal⟩ := Option.map_eq_some_iff.mp done
  cases (locked s holds).found.symm.trans found
  cases equal
  exact ⟨inv, .refl _ s, rest s holds⟩

/-- Releasing the lock of an object. -/
theorem wp_unlock {value : μ × α} (knows : KnowsMemory o c value.1 s) :
    wp exec (terms c) (do unlock (.client c) i; return value) (fun r => KnowsMemory o c r.1) s := by
  refine wp_op knows_stable knows ?_
  intro s inv knows _ fate result s' done
  obtain ⟨kept, guarantee, frame⟩ := foreign_step (.client c) inv (by exact rfl) done
  exact ⟨kept, guarantee, wp_value knows_stable (frame.knows knows kept)⟩

/-- Taking the counters of one object with the checkpoint of the reporter. -/
theorem wp_takeTraffic {hash : String} (knows : KnowsMemory o c memory s)
    (user : ∃ m : Meter κ, s.meters[i]? = some m ∧ m.hash = hash) :
    wp exec (terms c) (takeTraffic (.client c) i memory
      (some fun sent recv => checkpoint o c hash memory sent recv))
      (fun r => KnowsMemory o c r.1) s := by
  have listed : (terms c).Stable fun s : World κ =>
      ∃ m : Meter κ, s.meters[i]? = some m ∧ m.hash = hash := by
    rintro s s' related _ ⟨m, found, user⟩
    obtain ⟨m', found', same⟩ := related.heap i m found
    exact ⟨m', found', same.trans user⟩
  unfold takeTraffic
  refine wp_op (knows_stable.and listed) ⟨knows, user⟩ ?_
  rintro s inv ⟨knows, m₀, found₀, user⟩ _ fate ⟨⟩ s' done
  obtain ⟨kept, guarantee, frame⟩ := foreign_step (.client c) inv (by exact rfl) done
  cases exec_effect done
  case same quiet => exact absurd trivial quiet
  rename_i m₁ _ found
  obtain rfl : m₀ = m₁ := Option.some.inj (found₀.symm.trans found)
  refine ⟨kept, guarantee, ?_⟩
  have bound : i < s.meters.length := (List.getElem?_eq_some_iff.mp found).1
  generalize equal : ({ m₀ with holder := some (.client c) } : Meter κ) = m at *
  have holds : Holds c i m (s.setMeter i m) :=
    ⟨by simp [World.setMeter, bound], by rw [← equal]⟩
  have hashed : hash = m.hash := by rw [← equal, ← user]
  subst hashed
  -- both loads happen under the lock
  have locked : ∀ s : World κ, KnowsMemory o c memory s ∧ Holds c i m s → Holds c i m s :=
    fun _ => And.right
  refine wp_load (knows_stable.and holds_stable) locked ?_ ⟨frame.knows knows kept, holds⟩
  intro s known
  refine wp_load (knows_stable.and holds_stable) locked ?_ known
  rintro s ⟨knows, holds⟩
  split
  · exact wp_unlock o knows
  refine wp_seq (terms_lawful c) (wp_checkpoint o knows holds) ?_
  rintro ⟨memory, failure⟩ s inv ⟨holds, ended⟩
  cases failure with
  | some reason =>
    exact wp_unlock o ended
  | none =>
    -- the file accounts for both counters, so they are cleared one after the other
    refine wp_op (saved_stable.and holds_stable) ⟨ended, holds⟩ ?_
    rintro s inv ⟨saved, holds⟩ _ fate ⟨⟩ s' done
    obtain ⟨kept, guarantee, saved, holds⟩ := clear_step saved holds done
    refine ⟨kept, guarantee, wp_op (saved_stable.and holds_stable) ⟨saved, holds⟩ ?_⟩
    rintro s inv ⟨saved, holds⟩ _ fate ⟨⟩ s' done
    obtain ⟨kept, guarantee, saved, holds⟩ := clear_step saved holds done
    rw [amounts_cleared] at saved
    exact ⟨kept, guarantee, wp_unlock o saved.knows⟩

/-! ### Collecting from the authenticators -/

theorem Heap.exec {op : Op κ} {result : Res op} (done : exec fate s op = some (result, s')) :
    Heap s s' := by
  cases exec_effect done with
  | take found holds d | drop found holds d =>
    exact (Frame.setMeter found (.inr holds) (Meter.put_hash _ d 0)).heap
  | lock | unlock | add | subtract => exact (Frame.exec _ (by exact rfl) done).heap
  | store => exact (Frame.exec .embedded (by trivial) done).heap
  | _ => exact fun _ m found => ⟨m, found, rfl⟩

/-- Knowledge of the memory, together with what the heap keeps. -/
theorem wp_since_heap {p : Routine κ α} {post : α → World κ → Prop}
    (holds : wp exec (terms c) p post s) :
    wp exec (terms c) p (fun value s' => post value s' ∧ Heap s s') s :=
  wp_since (fun _ _ _ => Heap.trans) (fun _ _ related => related.heap)
    (fun _ _ _ _ _ done => Heap.exec done) holds

theorem wp_collectUsers (users : List (Nat × String)) {memory : μ}
    (knows : KnowsMemory o c memory s) (listed : Listed users s) :
    wp exec (terms c) (collectUsers o c users memory) (fun r => KnowsMemory o c r.1) s := by
  induction users generalizing memory s with
  | nil => exact wp_value knows_stable knows
  | cons user rest ih =>
    obtain ⟨i, hash⟩ := user
    refine wp_seq (terms_lawful c)
      (wp_since_heap (wp_takeTraffic o knows (listed _ List.mem_cons_self))) ?_
    rintro ⟨memory, failure⟩ s' _ ⟨knows, grown⟩
    cases failure with
    | some reason => exact wp_value knows_stable knows
    | none =>
      have others : Listed rest s := fun user mem => listed user (List.mem_cons_of_mem _ mem)
      exact ih knows (others.heap grown)

theorem wp_collectAuths (auths : List Nat) {memory : μ} (knows : KnowsMemory o c memory s) :
    wp exec (terms c) (collectAuths o c auths memory) (fun r => KnowsMemory o c r.1) s := by
  induction auths generalizing memory s with
  | nil => exact wp_value knows_stable knows
  | cons auth rest ih =>
    refine wp_op knows_stable knows ?_
    intro s inv knows _ fate users s' done
    obtain ⟨visited, found, equal⟩ := Option.map_eq_some_iff.mp done
    cases equal
    refine ⟨inv, .refl _ s, ?_⟩
    refine wp_seq (terms_lawful c) (wp_collectUsers o users knows (listed_of_visit found)) ?_
    rintro ⟨memory, failure⟩ s' _ knows
    cases failure with
    | some reason => exact wp_value knows_stable knows
    | none => exact ih knows

end Take

end TrojanGo.Plane
