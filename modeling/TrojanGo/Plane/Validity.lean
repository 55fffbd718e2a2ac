import TrojanGo.Lib.Sequential
import TrojanGo.Plane.Documents
import TrojanGo.Plane.OutboxRuns

/-!
# No save is refused

A change that cannot be saved is taken back, and the state before it was valid. The argument needs
nothing from the other goroutines but that users have names.
-/
namespace TrojanGo.Plane

open Lib NodeSync Prog

/-! ### Valid states -/

/-- No entry without a user, none without traffic, and all amounts are 64-bit words. -/
structure Proper (m : Amounts) : Prop where
  named : "" ∉ m
  filled : ∀ hash t, m.lookup hash = some t → t ≠ 0
  bounded : Bounded m

theorem Proper.empty : Proper ∅ where
  named := Finmap.notMem_empty
  filled hash t found := by simp at found
  bounded hash t found := by simp at found

variable {hash : String}

theorem lookup_insert_cases {m : Amounts} {other : String} {t t' : Traffic}
    (found : (m.insert hash t).lookup other = some t') : t' = t ∨ m.lookup other = some t' := by
  grind [Finmap.lookup_insert, Finmap.lookup_insert_of_ne]

theorem Proper.insert {m : Amounts} (proper : Proper m) {t : Traffic} (named : hash ≠ "")
    (filled : t ≠ 0) (bounded : t.up < word ∧ t.down < word) :
    Proper (m.insert hash t) where
  named := by
    rw [Finmap.mem_insert]
    exact fun mem => mem.elim (fun same => named same.symm) proper.named
  filled other t' found := by
    have := lookup_insert_cases found
    grind [proper.filled]
  bounded other t' found := by
    have := lookup_insert_cases found
    have old := proper.bounded other t'
    grind

/-- A state that validates, with amounts that fit. -/
structure State.Sound (st : State) : Prop where
  version : st.version = 0 ∨ st.version = currentVersion
  named : st.pendingSyncID = "" ↔ st.pending = ∅
  pending : Proper st.pending
  queued : Proper st.queued

variable {st : State}

namespace State

theorem validateGroup_ok (group : String) (m : Amounts) :
    validateGroup group m = .ok () ↔ "" ∉ m ∧ ∀ hash t, m.lookup hash = some t → t ≠ 0 := by
  have empty := any_eq_true m fun _ amount => decide (amount = 0)
  grind [validateGroup]

/-- What `Validate` accepts. -/
theorem validate_iff (st : State) : st.validate = .ok () ↔
    (st.version = 0 ∨ st.version = currentVersion) ∧ (st.pendingSyncID = "" ↔ st.pending = ∅) ∧
      validateGroup "pending" st.pending = .ok () ∧ validateGroup "queued" st.queued = .ok () := by
  have named := @validate_ok st
  unfold validate at *
  grind

theorem Sound.valid (sound : st.Sound) : st.validate = .ok () :=
  (validate_iff st).mpr ⟨sound.version, sound.named,
    (validateGroup_ok _ _).mpr ⟨sound.pending.named, sound.pending.filled⟩,
    (validateGroup_ok _ _).mpr ⟨sound.queued.named, sound.queued.filled⟩⟩

theorem Sound.fits (sound : st.Sound) : st.Fits :=
  ⟨sound.pending.bounded, sound.queued.bounded⟩

/-- A valid state whose amounts are 64-bit words. -/
theorem Sound.of_valid (valid : st.validate = .ok ()) (fits : st.Fits) : st.Sound := by
  obtain ⟨version, named, pending, queued⟩ := (validate_iff st).mp valid
  obtain ⟨pendingNamed, pendingFilled⟩ := (validateGroup_ok _ _).mp pending
  obtain ⟨queuedNamed, queuedFilled⟩ := (validateGroup_ok _ _).mp queued
  exact ⟨version, named, ⟨pendingNamed, pendingFilled, fits.pending⟩,
    ⟨queuedNamed, queuedFilled, fits.queued⟩⟩

theorem Sound.normalize (sound : st.Sound) : st.normalize.Sound :=
  ⟨.inr rfl, sound.named, sound.pending, sound.queued⟩

theorem Sound.empty : (State.normalize {}).Sound :=
  ⟨.inr rfl, by simp, .empty, .empty⟩

end State

/-! ### The operations -/

section

variable {κ : Type}

/-- Users have names. -/
def NamedUsers (_ : World κ) : Op κ → Prop
  | .mapStore _ hash => hash ≠ ""
  | _ => True

/-- The operations that reporters perform: they never have a state refused, and what they write
consists of 64-bit words. -/
def Op.Permitted : Op κ → Prop
  | .refuse => False
  | .replace _ stored => stored.state.Fits
  | _ => True

/-- What the answers of the operations have in common. -/
def Op.Answers : (op : Op κ) → Res op → Prop
  | .listUsers _, users => ∀ user ∈ users, user.2 ≠ ""
  | .load _ _, n => n < word
  | .newSyncID, result => ∀ id, result = some id → id ≠ ""
  | _, _ => True

/-- Users have names and counters of 64 bits, the outbox file fits, and no state was refused. -/
structure Sane (s : World κ) : Prop where
  named : ∀ (i : Nat) (m : Meter κ), s.meters[i]? = some m → m.hash ≠ ""
  small : ∀ (i : Nat) (m : Meter κ), s.meters[i]? = some m → ∀ d, m.count d < word
  fits : s.disk.content.Fits
  accepted : s.refused = false

namespace Sane

variable {s : World κ}

variable {s' : World κ} {m : Meter κ}

section

variable (sane : Sane s)

include sane

/-- An operation that touches no object, no file and no verdict. -/
theorem of_same (meters : s'.meters = s.meters) (disk : s'.disk = s.disk)
    (refused : s'.refused = s.refused) : Sane s' where
  named := meters ▸ sane.named
  small := meters ▸ sane.small
  fits := disk ▸ sane.fits
  accepted := refused ▸ sane.accepted

theorem setMeter {i : Nat} {m' : Meter κ} (found : s.meters[i]? = some m) (same : m'.hash = m.hash)
    (small : ∀ d, m'.count d < word) : Sane (s.setMeter i m') := by
  obtain ⟨named, counts, fits, accepted⟩ := sane
  refine ⟨fun j m₀ found' => ?_, fun j m₀ found' => ?_, fits, accepted⟩ <;>
    rw [World.setMeter, List.getElem?_set] at found'
  · grind
  · have old := counts j m₀
    grind

theorem putMeter {i : Nat} (found : s.meters[i]? = some m) {d : Dir} {n : Nat} (small : n < word) :
    Sane (s.setMeter i (m.put d n)) := by
  refine sane.setMeter found (m.put_hash d n) fun d' => ?_
  have before := sane.small i m found
  grind [Meter.put_count]

theorem setHolder {i : Nat} (found : s.meters[i]? = some m) (holder : Option (Actor κ)) :
    Sane (s.setMeter i { m with holder := holder }) := by
  refine sane.setMeter found rfl fun d => ?_
  exact sane.small i m found d

theorem store {auth : Nat} (named : hash ≠ "") (registry : Nat → String → Option Nat) :
    Sane { s with
      meters := s.meters ++ [{ auth := auth, hash := hash }]
      registry := registry } := by
  have empty : ∀ d, ({ auth := auth, hash := hash } : Meter κ).count d < word := by
    intro d
    cases d <;> exact Nat.two_pow_pos 64
  obtain ⟨named, counts, fits, accepted⟩ := sane
  refine ⟨by grind, fun j m found => ?_, fits, accepted⟩
  have old := counts j m
  grind

theorem write (c : κ) {disk : Disk} (fits : disk.content.Fits) :
    Sane (s.write c disk) :=
  ⟨sane.named, sane.small, fits, sane.accepted⟩

theorem restart : Sane s.restart where
  named i m found := by simp [World.restart] at found
  small i m found := by simp [World.restart] at found
  fits := sane.fits
  accepted := sane.accepted

end

variable [DecidableEq κ]

/-- Every permitted operation keeps it, as long as users have names. -/
theorem exec {fate : Fate} {op : Op κ} {result : Res op} (sane : Sane s) (named : NamedUsers s op)
    (permitted : op.Permitted) (done : exec fate s op = some (result, s')) : Sane s' := by
  cases exec_effect done with
  | refuse => exact permitted.elim
  | store auth hash => exact sane.store named _
  | lock found | unlock found => exact sane.setHolder found _
  | add found =>
    exact (sane.putMeter found (Nat.mod_lt _ (Nat.two_pow_pos 64))).of_same rfl rfl rfl
  | take found | drop found =>
    exact (sane.putMeter found (Nat.two_pow_pos 64)).of_same rfl rfl rfl
  | @subtract i _ m found _ d n =>
    have less := Nat.lt_of_le_of_lt (Nat.sub_le (m.count d) n) (sane.small i m found d)
    exact (sane.putMeter found less).of_same rfl rfl rfl
  | replace c stored => exact sane.write c permitted
  | remove c => exact sane.write c State.Sound.empty.fits
  | _ => exact sane.of_same rfl rfl rfl

theorem answers {fate : Fate} {op : Op κ} {result : Res op} (sane : Sane s)
    (done : Plane.exec fate s op = some (result, s')) : op.Answers result := by
  cases op with
  | listUsers auth =>
    obtain ⟨users, visited, equal⟩ := Option.map_eq_some_iff.mp done
    cases equal
    intro user mem
    obtain ⟨m, found, same⟩ := listed_of_visit visited user mem
    exact same ▸ sane.named user.1 m found
  | load i d =>
    obtain ⟨m, found, equal⟩ := Option.map_eq_some_iff.mp done
    cases equal
    exact sane.small i m found d
  | newSyncID => grind [newSyncID_cases, Op.Answers]
  | _ => trivial

end Sane

theorem Op.Foreign.permitted {me : Actor κ} {op : Op κ} (foreign : op.Foreign me) :
    op.Permitted := by
  cases op with
  | refuse | replace => exact foreign.elim
  | _ => trivial

end

/-! ### Saving -/

section Saving

variable {κ : Type}

variable {allowed : Op κ → Prop}

theorem attempts_only (attempt : allowed .attempt) (texts : List String) :
    (attempts texts : Routine κ (Except String Unit)).Only allowed := by
  induction texts with grind [attempts]

theorem saveOutbox_only {c : κ} (attempt : allowed .attempt) (remove : allowed (.remove c))
    (replace : ∀ valid, allowed (.replace c ⟨st.normalize, valid, rfl⟩))
    (refuse : st.normalize.validate ≠ .ok () → allowed .refuse) :
    (saveOutbox c st).Only allowed := by
  grind [saveOutbox, removeOutbox, attempts_only]

/-- The program has no state refused, and its value satisfies `post`. -/
abbrev Upright {α : Type} (p : Routine κ α) (post : α → Prop) : Prop :=
  p.Yields Op.Permitted Op.Answers post

/-- The states that are saved are valid, so none is refused. -/
theorem upright_save {α : Type} {c : κ} (sound : st.Sound) {next : Except String Unit → Routine κ α}
    {post : α → Prop} (rest : ∀ result, Upright (next result) post) :
    Upright (saveOutbox c st >>= next) post := by
  have only : (saveOutbox c st).Only Op.Permitted :=
    saveOutbox_only trivial trivial (fun _ => sound.normalize.fits)
      fun refused => absurd sound.normalize.valid refused
  exact yields_bind only.yields fun result _ => rest result

end Saving

/-! ### Collecting -/

/-- What collecting traffic keeps of the memory, if every checkpoint keeps it. -/
structure Collects {κ μ : Type} (allowed : Op κ → Prop) (answers : (op : Op κ) → Res op → Prop)
    (o : Owner μ) (c : κ) (named : String → Prop) (good : μ → Prop) : Prop where
  list : ∀ auth, allowed (.listUsers auth)
  lock : ∀ i, allowed (.lock (.client c) i)
  load : ∀ i d, allowed (.load i d)
  clear : ∀ i d, allowed (.clear (.client c) i d true)
  unlock : ∀ i, allowed (.unlock (.client c) i)
  users : ∀ auth users, answers (.listUsers auth) users → ∀ user ∈ users, named user.2
  checkpoint : ∀ hash memory i sent recv, named hash → good memory → ¬ (sent = 0 ∧ recv = 0) →
    answers (.load i .down) sent → answers (.load i .up) recv →
    (checkpoint o c hash memory sent recv).Yields allowed answers fun r => good r.1

namespace Collects

variable {κ μ : Type} {allowed : Op κ → Prop} {answers : (op : Op κ) → Res op → Prop}
  {o : Owner μ} {c : κ} {named : String → Prop} {good : μ → Prop}

variable {memory : μ}

section

variable (collects : Collects allowed answers o c named good)

include collects

theorem takeTraffic (kept : good memory) (i : Nat) (user : named hash) :
    (Plane.takeTraffic (.client c) i memory (some fun sent recv =>
      Plane.checkpoint o c hash memory sent recv)).Yields allowed answers fun r => good r.1 := by
  -- releasing the lock and clearing the counters do not touch the memory
  refine yields_ask (collects.lock i) fun _ _ => ?_
  refine yields_ask (collects.load i .down) fun sent sentRead => ?_
  refine yields_ask (collects.load i .up) fun recv recvRead => ?_
  split
  · exact yields_ask (collects.unlock i) fun _ _ => kept
  next counted =>
    refine yields_bind
      (collects.checkpoint hash memory i sent recv user kept counted sentRead recvRead) ?_
    rintro ⟨m, failure⟩ kept
    cases failure with
    | some reason => exact yields_ask (collects.unlock i) fun _ _ => kept
    | none =>
      refine yields_ask (collects.clear i .down) fun _ _ => ?_
      refine yields_ask (collects.clear i .up) fun _ _ => ?_
      exact yields_ask (collects.unlock i) fun _ _ => kept

theorem collectUsers (users : List (Nat × String)) (kept : good memory)
    (listed : ∀ user ∈ users, named user.2) :
    (Plane.collectUsers o c users memory).Yields allowed answers fun r => good r.1 := by
  induction users generalizing memory with
  | nil => exact kept
  | cons user rest ih =>
    obtain ⟨first, others⟩ := List.forall_mem_cons.mp listed
    refine yields_bind (collects.takeTraffic kept user.1 first) ?_
    rintro ⟨m, failure⟩ kept
    cases failure with
    | some reason => exact kept
    | none => exact ih kept others

theorem collectAuths (auths : List Nat) (kept : good memory) :
    (Plane.collectAuths o c auths memory).Yields allowed answers fun r => good r.1 := by
  induction auths generalizing memory with
  | nil => exact kept
  | cons auth rest ih =>
    refine yields_ask (collects.list auth) fun users listed => ?_
    refine yields_bind (collects.collectUsers users kept (collects.users auth users listed)) ?_
    rintro ⟨m, failure⟩ kept
    cases failure with
    | some reason => exact kept
    | none => exact ih kept

end

end Collects

section Rounds

variable {κ μ : Type} {c : κ} (o : Owner μ) {memory : μ}

/-- What a part of a round leaves in memory, whether it failed or not. -/
abbrev Valid (r : μ × Option String) : Prop := (o.state r.1).Sound

/-- Traffic that fits into the queue entry keeps the state valid. -/
theorem collected_sound (sound : (o.state memory).Sound) {sent recv : Nat} (named : hash ≠ "")
    (counted : ¬ (sent = 0 ∧ recv = 0))
    (room : ¬ ((value (o.queued memory) hash).up > word - 1 - recv ∨
      (value (o.queued memory) hash).down > word - 1 - sent)) (sentSmall : sent < word)
    (recvSmall : recv < word) :
    (o.state (o.setQueued memory ((o.queued memory).insert hash
      ⟨(value (o.queued memory) hash).up + recv,
        (value (o.queued memory) hash).down + sent⟩))).Sound := by
  rw [o.state_setQueued, o.queued_eq] at *
  refine ⟨sound.version, sound.named, sound.pending, sound.queued.insert named ?_ ?_⟩
  · intro nothing
    -- an entry without traffic would mean that nothing was taken from the counters
    have up := congrArg Traffic.up nothing
    have down := congrArg Traffic.down nothing
    apply counted
    change _ + recv = 0 at up
    change _ + sent = 0 at down
    omega
  · dsimp only
    omega

theorem upright_checkpoint (sound : (o.state memory).Sound) {sent recv : Nat} (named : hash ≠ "")
    (counted : ¬ (sent = 0 ∧ recv = 0)) (sentSmall : sent < word) (recvSmall : recv < word) :
    Upright (checkpoint o c hash memory sent recv) (Valid o) := by
  unfold checkpoint
  simp only
  split
  · exact sound
  next room =>
    have updated := collected_sound o sound named counted room sentSmall recvSmall
    refine upright_save updated fun result => ?_
    cases result with
    | error reason =>
      -- the queue entry is put back
      have readBack : ∀ q, o.queued (o.setQueued memory q) = q := by
        intro q
        rw [o.queued_eq, o.state_setQueued]
      simp only [readBack, restore_insert, o.setQueued_twice]
      exact sound
    | ok => exact updated

theorem upright_collectAuths (auths : List Nat) (sound : (o.state memory).Sound) :
    Upright (collectAuths o c auths memory) (Valid o) := by
  have collects : Collects Op.Permitted Op.Answers o c (fun hash => hash ≠ "")
      (fun m => (o.state m).Sound) :=
    { list := fun _ => trivial
      lock := fun _ => trivial
      load := fun _ _ => trivial
      clear := fun _ _ => trivial
      unlock := fun _ => trivial
      users := fun _ _ named => named
      checkpoint := fun _ _ _ _ _ named sound counted sentSmall recvSmall =>
        upright_checkpoint o sound named counted sentSmall recvSmall }
  exact collects.collectAuths auths sound

/-! ### Freezing, acknowledging -/

theorem upright_freeze (sound : (o.state memory).Sound) :
    Upright (freeze o c memory) (Valid o) := by
  unfold freeze
  split
  swap
  · exact sound
  next ready =>
    refine yields_ask trivial fun result drawn => ?_
    cases result with
    | none => exact sound
    | some id =>
      have pending : (o.state memory).pending = ∅ := o.idle_pending memory ready.1
      have frozen : (o.state (o.frozen memory id)).Sound := by
        rw [o.state_frozen]
        have filled : o.queued memory ≠ ∅ := ready.2
        have queued : Proper (o.queued memory) := o.queued_eq memory ▸ sound.queued
        exact ⟨sound.version, iff_of_false (drawn id rfl) filled, queued, .empty⟩
      refine upright_save frozen fun result => ?_
      cases result with
      | error reason =>
        -- the batch goes back to the queue, and its sync ID is dropped with it
        change (o.state (o.thawed (o.frozen memory id) (o.queued memory))).Sound
        rw [o.state_thawed, o.state_frozen, o.queued_eq]
        exact ⟨sound.version, iff_of_true rfl rfl, .empty, sound.queued⟩
      | ok => exact frozen

theorem upright_acknowledge (sound : (o.state memory).Sound) :
    Upright (acknowledge o c memory) (Valid o) := by
  have cleared : (o.state (o.cleared memory)).Sound := by
    rw [o.state_cleared]
    exact ⟨sound.version, iff_of_true rfl rfl, .empty, sound.queued⟩
  refine upright_save cleared fun result => ?_
  cases result with
  | error reason =>
    -- the batch is kept, to be sent again under its sync ID
    change (o.state (o.restored (o.cleared memory) memory)).Sound
    rw [o.restored_cleared]
    exact sound
  | ok => exact cleared

end Rounds

/-! ### The rounds -/

section

variable {κ : Type} {c : κ}

/-- The memory of the manager is valid after every round. -/
theorem upright_performSync {auths : List Nat} {hasDb : Bool} {m : Manager}
    (sound : m.state.Sound) :
    Upright (m.performSync c auths hasDb) fun m' => m'.state.Sound := by
  unfold Manager.performSync
  refine yields_ask trivial fun ready _ => ?_
  -- what a round records about its outcome is not part of the outbox state
  split
  swap
  · exact sound
  split
  · exact sound
  split
  · exact sound
  refine yields_bind (upright_collectAuths Manager.owner auths sound) ?_
  rintro ⟨m, _ | reason⟩ sound
  swap
  · exact sound
  refine yields_bind (upright_freeze Manager.owner sound) ?_
  rintro ⟨m, _ | reason⟩ sound
  swap
  · exact sound
  have request : (m.requestSyncID : Routine κ (Option String)).Only Op.Permitted := by
    unfold Manager.requestSyncID
    split
    · exact .ask trivial
    · exact .ret _
  refine yields_bind request.yields fun id _ => ?_
  cases id with
  | none => exact sound
  | some id =>
    refine yields_ask trivial fun result _ => ?_
    cases result with
    | none => exact sound
    | some response =>
      dsimp only
      split
      · exact sound
      next users accepted =>
        have discarded : Upright (m.discard c) (Valid Manager.owner) := by
          unfold Manager.discard
          split
          · exact sound
          · exact upright_acknowledge Manager.owner sound
        refine yields_bind discarded ?_
        rintro ⟨m, _ | reason⟩ sound
        swap
        · exact sound
        have applied := (applyUsers_only c users auths).mono fun _ plain => plain.foreign.permitted
        refine yields_bind applied.yields fun _ _ => ?_
        split
        · refine yields_ask trivial fun cached _ => ?_
          cases cached <;> exact sound
        · exact sound

theorem upright_flush {auth : Nat} {r : Reporter} (sound : r.state.Sound) :
    Upright (r.flush c auth) (Valid Reporter.owner) := by
  unfold Reporter.flush
  split
  · exact sound
  refine yields_bind (upright_collectAuths Reporter.owner [auth] sound) ?_
  rintro ⟨r, _ | reason⟩ sound
  swap
  · exact sound
  refine yields_bind (upright_freeze Reporter.owner sound) ?_
  rintro ⟨r, _ | reason⟩ sound
  swap
  · exact sound
  dsimp only
  split
  · exact sound
  refine yields_ask trivial fun result _ => ?_
  cases result with
  | none => exact sound
  | some response =>
    dsimp only
    split
    · exact upright_acknowledge Reporter.owner sound
    · exact sound

theorem upright_clientBody {client : Client} {memory : ClientMemory}
    {p : Routine κ ClientMemory} (found : clientBody c client memory = some p)
    (sound : memory.state.Sound) : Upright p fun memory => memory.state.Sound := by
  unfold clientBody at found
  split at found
  · cases found
    exact yields_bind (upright_performSync sound) fun m sound => sound
  · cases found
    exact yields_bind (upright_flush sound) fun r sound => sound
  · cases found

end

/-! ### Loading what was saved -/

section Loading

variable {κ : Type} [DecidableEq κ]

/-- Saving with nobody else around. -/
abbrev Alone : Contract (World κ) (Op κ) := .alone (fun _ _ => True) fun _ => True

theorem attempts_keep (texts : List String) {known : World κ → Prop} {s : World κ}
    (holds : known s) : wp exec Alone (attempts texts) (fun _ => known) s := by
  have only : (attempts texts : Routine κ (Except String Unit)).Only (Eq .attempt) :=
    attempts_only rfl texts
  refine wp_only only ?_ holds ?_
  · intro s s' same _ known
    cases same
    exact known
  · rintro s _ _ known _ rfl fate result s' done
    cases done
    exact ⟨trivial, trivial, known⟩

theorem wp_removeOutbox_loads (c : κ) (s : World κ) :
    wp exec Alone (removeOutbox c)
      (fun result s => result = .ok () → s.disk = .absent) s := by
  refine wp_step fun fate removal s' _ done => ⟨trivial, ?_⟩
  rcases remove_cases done with rfl | ⟨rfl, _⟩
  · have gone : (s.write c .absent).disk = .absent := rfl
    cases removal with
    | missing => exact wp_done fun _ => gone
    | failed => exact wp_done nofun
    | removed => exact wp_mono (fun _ _ _ gone _ => gone) (attempts_keep _ gone)
  · exact wp_done nofun

/-- After a save that reports success the file holds the saved state. -/
theorem wp_saveOutbox_loads (c : κ) (fits : st.Fits) (s : World κ) :
    wp exec Alone (saveOutbox c st)
      (fun result s => result = .ok () → s.disk.file.load = .ok st.normalize) s := by
  unfold saveOutbox
  split
  · exact wp_step fun fate _ s' _ _ => ⟨trivial, wp_done nofun⟩
  next checked =>
    split
    next empty =>
      -- an empty state is saved as no file at all
      refine wp_mono (fun _ s _ gone saved => ?_) (wp_removeOutbox_loads c s)
      rw [gone saved, normalize_of_isEmpty empty]
      rfl
    · refine wp_then wp_trivial fun prepared s _ _ => ?_
      cases prepared with
      | error reason => exact wp_done nofun
      | ok =>
        refine wp_step fun fate replaced s' _ done => ⟨trivial, ?_⟩
        rcases replace_cases done with rfl | ⟨rfl, _⟩
        · have stored : (Disk.stored ⟨st.normalize, checked, rfl⟩).content.Fits :=
            ⟨fits.pending, fits.queued⟩
          have written : (s.write c (.stored ⟨st.normalize, checked, rfl⟩)).disk.file.load =
              .ok st.normalize := Disk.file_load stored
          cases replaced
          · exact wp_done nofun
          · exact wp_mono (fun _ _ _ loads _ => loads) (attempts_keep _ written)
        · exact wp_done nofun

end Loading

/-! ### Every run -/

section Runs

variable {κ : Type} [DecidableEq κ]

/-- What loads was validated. -/
theorem Disk.content_sound {disk : Disk} (fits : disk.content.Fits) : disk.content.Sound := by
  cases disk with
  | stored st => exact .of_valid st.valid fits
  | absent | unreadable => exact .empty

omit [DecidableEq κ] in
/-- A reporter starts from what is in the file. -/
theorem start_sound (clients : κ → Client) {s : World κ} (sane : Sane s) (c : κ) :
    (ClientMemory.state (memory clients s (.client c))).Sound := by
  have loaded := start_memory clients s c
  -- the version is set only when the state is saved
  have unversioned : (ClientMemory.state (memory clients s (.client c))).version = 0 := by
    cases memory clients s (.client c) with
    | manager m => rfl
    | reporter r =>
      obtain ⟨_ | batch, queued, failure⟩ := r
      · rfl
      · rfl
  have sound : (ClientMemory.state (memory clients s (.client c))).normalize.Sound :=
    loaded ▸ Disk.content_sound sane.fits
  exact ⟨.inl unversioned, sound.named, sound.pending, sound.queued⟩

/-- Reporters know that their memory is valid, and need nothing from anyone. -/
def uprightProtocol (clients : κ → Client) (embedded : List Nat) (restarts : Bool) :
    Machine.Protocol (machine clients embedded restarts) where
  admits := NamedUsers
  inv := Sane
  rely := fun _ _ _ => True
  guar := fun _ _ _ => True
  knows := fun
    | .client _ => fun memory _ => (ClientMemory.state memory).Sound
    | _ => fun _ _ => True

theorem upright_wp {α : Type} {p : Routine κ α} {post : α → Prop} (upright : Upright p post)
    (s : World κ) :
    wp exec ⟨NamedUsers, Sane, fun _ _ => True, fun _ _ => True⟩ p
      (fun value _ => post value) s := by
  have stable : (⟨NamedUsers, Sane, fun _ _ => True, fun _ _ => True⟩ :
      Contract (World κ) (Op κ)).Stable fun _ => True := fun _ _ _ _ _ => trivial
  refine wp_mono (fun value _ _ established => established.1)
    (wp_yields upright stable trivial ?_)
  intro s op sane _ named permitted fate result s' done
  exact ⟨sane.exec named permitted done, trivial, trivial, sane.answers done⟩

theorem uprightProtocol_sound (clients : κ → Client) (embedded : List Nat) (restarts : Bool) :
    (uprightProtocol clients embedded restarts).Sound where
  lawful _ := ⟨fun _ => trivial, fun _ _ _ _ _ => trivial⟩
  stable := by
    intro i memory s s' knows _ _
    cases i with
    | client c => exact knows
    | _ => trivial
  compatible _ _ _ _ _ _ := trivial
  body := by
    intro i call memory p s found knows
    cases i with
    | client c =>
      exact upright_wp (upright_clientBody found knows) s
    | conn n =>
      have only := (connBody_only found).mono fun _ plain => plain.foreign.permitted
      exact upright_wp only.yields s
    | admin n =>
      cases found
      have only : (adminBody n call : Routine κ Unit).Only Op.Permitted :=
        (adminBody_only n call).mono fun _ plain => plain.foreign.permitted
      exact upright_wp only.yields s
    | embedded =>
      cases found
      have only : (syncEmbeddedTrafficOnce embedded : Routine κ _).Only Op.Permitted :=
        (syncEmbeddedTrafficOnce_only embedded).mono fun _ => Op.Foreign.permitted
      exact upright_wp (only.bind fun _ => .ret _).yields s
  boot := by
    intro s s' sane kept
    rw [restart_of_reboot kept]
    refine ⟨sane.restart, fun i => ?_⟩
    cases i with
    | client c => exact start_sound clients sane.restart c
    | _ => trivial

theorem upright_initial (clients : κ → Client) (embedded : List Nat) (restarts : Bool)
    {disk : Disk} (db : Master.Db) (fits : disk.content.Fits) :
    (uprightProtocol clients embedded restarts).Good
      ((machine clients embedded restarts).boot (World.initial disk db)) := by
  have sane : Sane (World.initial disk db : World κ) :=
    { named := fun i m found => by simp [World.initial] at found
      small := fun i m found => by simp [World.initial] at found
      fits := fits
      accepted := rfl }
  refine ⟨sane, fun i => ?_⟩
  cases i with
  | client c => exact start_sound clients sane c
  | _ => trivial

/-- In every run of the reporters from any valid outbox file, with users that have names and
whatever fails: no state that is handed to `Save` was refused, the outbox state in the memory of
every reporter validates, and after a save that reports success the file loads as the saved
state. -/
theorem outbox_stays_valid (clients : κ → Client) (embedded : List Nat) (restarts : Bool)
    (disk : Disk) (db : Master.Db) (fits : disk.content.Fits)
    (labels : (machine clients embedded restarts).Labels)
    (c : (machine clients embedded restarts).State)
    (meets : (machine clients embedded restarts).MeetsFrom NamedUsers (World.initial disk db)
      labels)
    (ran : (machine clients embedded restarts).runFrom (World.initial disk db) labels = some c) :
    c.shared.refused = false ∧
    (∀ k memory, c.threads (.client k) = .idle memory →
      (ClientMemory.state memory).validate = .ok ()) ∧
    ∀ k st fates s', st.Fits →
      (saveOutbox k st).run exec fates c.shared = (.returned (.ok ()), s') →
      s'.disk.file.load = .ok st.normalize := by
  have good := (upright_initial clients embedded restarts db fits).run
    (uprightProtocol_sound clients embedded restarts) meets ran
  have sane : Sane c.shared := good.inv
  refine ⟨sane.accepted, ?_, ?_⟩
  · intro k memory idle
    have known := good.threads (.client k)
    rw [idle] at known
    exact State.Sound.valid known
  · intro k st fates s' fits saved
    have loads := (run_sound (fun _ => rfl) trivial (runMeets_trivial fates)
      (wp_saveOutbox_loads k fits c.shared)).2
    rw [saved] at loads
    exact loads (.ok ()) rfl rfl

instance (s : World κ) : (op : Op κ) → Decidable (NamedUsers s op)
  | .mapStore _ hash => inferInstanceAs (Decidable (hash ≠ ""))
  | .listUsers _ | .mapLoad _ _ | .mapDelete _ _ | .lock _ _ | .unlock _ _ | .load _ _
  | .add _ _ _ _ | .clear _ _ _ _ | .subtract _ _ _ _ | .attempt | .refuse | .replace _ _
  | .remove _ | .newSyncID | .post _ _ _ _ | .syncReady | .commit _ | .cacheUsers _ =>
    .isTrue trivial

/-- Traffic of one user that waits for its first report. -/
def waiting : State := { queued := (∅ : Amounts).insert "u" ⟨7, 5⟩ }

theorem waiting_fits : waiting.Fits where
  pending := Proper.empty.bounded
  queued := (Proper.empty.insert (by decide) (by decide) (by decide)).bounded

theorem flushed_outbox_valid :
    let M := machine (fun _ : Unit => .reporter 0) [] true
    ∃ c memory s', M.runFrom (World.initial .absent {}) flushLabels = some c ∧
      c.threads (.client ()) = .idle memory ∧ c.shared.counted "u" .up = 7 ∧
      c.shared.refused = false ∧ (ClientMemory.state memory).validate = .ok () ∧
      (saveOutbox () waiting).run exec (List.replicate 8 {}) c.shared = (.returned (.ok ()), s') ∧
      s'.disk.file.load = .ok waiting.normalize := by
  intro M
  obtain ⟨c, ran, idle, counted, returned⟩ : ∃ c, M.runFrom (World.initial .absent {}) flushLabels =
    some c ∧ (c.threads (.client ())).memory.isSome = true ∧
      c.shared.counted "u" .up = 7 ∧
      ((saveOutbox () waiting).run exec (List.replicate 8 {}) c.shared).1 = .returned (.ok ()) :=
    by exact Machine.run_checked (by decide +kernel)
  obtain ⟨accepted, valid, loads⟩ := outbox_stays_valid (fun _ => .reporter 0) [] true .absent {}
    State.Sound.empty.fits flushLabels c (by decide +kernel) ran
  cases thread : c.threads (.client ()) with
  | idle memory =>
    have saved := run_of_outcome returned
    exact ⟨c, memory, _, ran, thread, counted, accepted, valid () memory thread, saved,
      loads () waiting _ _ waiting_fits saved⟩
  | running rest =>
    rw [thread] at idle
    cases idle

end Runs

end TrojanGo.Plane
