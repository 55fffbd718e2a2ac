import TrojanGo.Plane.Rounds

/-!
# Reporting to the master

All goroutines of the process together keep the account of the outbox, also when other reporters
loaded the same file, as long as at most one of them writes it.
-/
namespace TrojanGo.Plane

open Lib NodeSync Prog

variable {κ μ : Type} [DecidableEq κ] {c : κ}

/-! ### Freezing a batch -/

variable {s : World κ}

/-- Drawing a sync ID disturbs nobody, not even the reporter that draws it. -/
theorem newSyncID_step {s' : World κ} {fate : Fate} {result : Option String} (inv : Inv s)
    (done : exec fate s .newSyncID = some (result, s')) :
    Inv s' ∧ (∀ c, Rely c s s') ∧ ∀ id, result = some id →
      id ≠ "" ∧ id ∈ s'.ids ∧ id ∉ s'.sent ∧ id ≠ s'.boot.pendingSyncID := by
  have balanced := Balanced.exec inv.balanced done
  rcases newSyncID_cases done with ⟨rfl, rfl⟩ | ⟨id, rfl, named, fresh, rfl⟩
  · exact ⟨inv, fun c => Rely.refl c s', fun id drawn => by cases drawn⟩
  have known : ∀ st, s.Known st → World.Known { s with ids := id :: s.ids } st :=
    fun st known named => ⟨List.mem_cons_of_mem _ (known named).1, (known named).2⟩
  refine ⟨?_, ?_, ?_⟩
  · exact
      { inv with
        balanced := balanced
        sentNamed := fun id batch found =>
          (inv.sentNamed id batch found).imp_right (List.mem_cons_of_mem _)
        file := ⟨inv.file.valid, known _ inv.file.known, inv.file.covers⟩
        bootKnown := known _ inv.bootKnown }
  · exact fun c => { Rely.refl c s with ids := fun _ => List.mem_cons_of_mem _ }
  · rintro _ ⟨⟩
    refine ⟨named, List.mem_cons_self, fun mem => ?_, fun same => ?_⟩
    · obtain ⟨batch, found⟩ := Finmap.mem_iff.mp mem
      exact fresh (inv.sentNamed id batch found).2
    · exact fresh (same ▸ (inv.bootKnown (same ▸ named)).1)

/-- A sync ID that nothing was sent under, as long as nobody else writes the file. -/
def Fresh (c : κ) (id : String) (s : World κ) : Prop :=
  s.Mine c → id ∈ s.ids ∧ id ∉ s.sent ∧ id ≠ s.boot.pendingSyncID

omit [DecidableEq κ] in
theorem fresh_stable {id : String} : (terms c).Stable (Fresh c id) := by
  intro s s' related _ fresh mine
  obtain ⟨drawn, unsent, other⟩ := fresh (related.mine mine)
  obtain ⟨_, _, sent, _⟩ := related.same mine
  refine ⟨related.ids id drawn, ?_, related.boot ▸ other⟩
  rcases sent with equal | ⟨_, _, equal⟩
  · rwa [equal]
  · rw [equal, Finmap.mem_insert]
    exact fun mem => mem.elim other unsent

variable {st : State}

section Owner

variable (o : Owner μ) {memory : μ}

/-- The queue becomes a batch, or the reporter is where it was. -/
theorem wp_freeze (knows : KnowsMemory o c memory s) :
    wp exec (terms c) (freeze o c memory) (fun r => KnowsMemory o c r.1) s := by
  unfold freeze
  split
  next ready =>
    refine wp_op knows_stable knows ?_
    intro s inv knows _ fate result s' done
    obtain ⟨kept, related, drawn⟩ := newSyncID_step inv done
    refine ⟨kept, fun c _ => related c, ?_⟩
    have later := knows.rely (related c) kept
    cases result with
    | none => exact wp_value knows_stable later
    | some id =>
      obtain ⟨_, known, unsent, other⟩ := drawn id rfl
      -- without a batch in flight there is no sync ID either
      have pending : (o.state memory).pending = ∅ := o.idle_pending memory ready.1
      have unnamed : (o.state memory).pendingSyncID = "" := (later.valid kept).mpr pending
      have draft : Drafts c (o.state memory).normalize (o.state (o.frozen memory id)).normalize
          Book.none (Fresh c id) := by
        intro s _ fresh mine
        obtain ⟨drawn, unsent, other⟩ := fresh mine
        rw [o.state_frozen, o.queued_eq]
        exact .freeze unnamed drawn unsent other rfl rfl
      refine wp_seq (terms_lawful c) (wp_saveOutbox (fun s _ mine fresh _ => fresh mine) later
        (fun _ => ⟨known, unsent, other⟩) fresh_stable draft) ?_
      rintro (reason | ok) s _ ⟨ended, _⟩
      · -- the save has failed: the batch goes back to the queue
        have restored : o.state (o.thawed (o.frozen memory id) (o.queued memory)) =
            o.state memory := by
          rw [o.state_thawed, o.state_frozen, o.queued_eq]
          cases equal : o.state memory
          simp_all
        refine wp_return knows_stable ended fun s _ known => ?_
        change Knows c _ s
        rw [restored]
        exact known
      · exact wp_value knows_stable ended.knows
  · exact wp_value knows_stable knows

/-! ### Sending and discarding -/

/-- The batch in memory, if there is one, is acknowledged. -/
def Discardable (c : κ) (st : State) (s : World κ) : Prop :=
  s.Mine c → st.pendingSyncID = "" ∨ st.pendingSyncID ∈ s.acked

omit [DecidableEq κ] in
theorem discardable_stable : (terms c).Stable (Discardable c st) := by
  intro s s' related _ done mine
  obtain ⟨_, _, _, acked⟩ := related.same mine
  exact (done (related.mine mine)).imp_right acked.mem

/-- An acknowledged batch is dropped, or kept in memory if that cannot be saved. -/
theorem wp_acknowledge (knows : KnowsMemory o c memory s) (done : Discardable c (o.state memory) s) :
    wp exec (terms c) (acknowledge o c memory) (fun r => KnowsMemory o c r.1) s := by
  have draft : Drafts c (o.state memory).normalize (o.state (o.cleared memory)).normalize
      Book.none (Discardable c (o.state memory)) := by
    intro s _ done mine
    rw [o.state_cleared]
    exact .discard (done mine) rfl rfl
  refine wp_seq (terms_lawful c)
    (wp_saveOutbox (fun s _ mine done _ => done mine) knows done discardable_stable draft) ?_
  rintro (reason | ok) s _ ⟨ended, _⟩
  · rw [o.restored_cleared]
    exact wp_value knows_stable ended
  · exact wp_value knows_stable ended.knows

end Owner

omit [DecidableEq κ] in
/-- Sending the batch of the file the process started from. -/
theorem boot_posted_extends (inv : Inv s) (named : s.boot.pendingSyncID ≠ "") (accepted : Bool) :
    Extends s.boot s.sent (s.posted s.boot accepted).sent ∧
      Extends s.boot s.acked (s.posted s.boot accepted).acked := by
  have same := (inv.bootKnown named).2
  have once : ∀ batches : Batches,
      (∀ batch, batches.lookup s.boot.pendingSyncID = some batch → batch = s.boot.pending) →
      Extends s.boot batches (batches.insert s.boot.pendingSyncID s.boot.pending) := by
    intro batches agrees
    -- several reporters may have loaded it, and all of them send the same
    by_cases mem : s.boot.pendingSyncID ∈ batches
    · obtain ⟨batch, found⟩ := Finmap.mem_iff.mp mem
      rw [agrees batch found] at found
      exact .inl (insert_of_lookup found)
    · exact .inr ⟨named, mem, rfl⟩
  refine ⟨once s.sent same, ?_⟩
  cases accepted with
  | true => exact once s.acked fun batch found => same batch (inv.ackedSent _ batch found)
  | false => exact .refl _ _

/-- What sending a batch means for the others and for the reporter itself. -/
theorem post_step (inv : Inv s) (knows : Knows c st s) (named : st.pendingSyncID ≠ "")
    (accepted : Bool) :
    Inv (s.posted st accepted) ∧ Guarantee (.client c) s (s.posted st accepted) ∧
      Knows c st (s.posted st accepted) := by
  have quiet : ∀ j, (s.Mine j → Extends s.boot s.sent (s.posted st accepted).sent ∧
      Extends s.boot s.acked (s.posted st accepted).acked) → Rely j s (s.posted st accepted) :=
    fun j same => { Rely.refl j s with same := fun mine => ⟨rfl, rfl, same mine⟩ }
  -- a reporter that has written the file sends its own batch, another one that of the start
  by_cases written : s.writer = some c
  · have own := (knows.written written).posted named accepted
    refine ⟨own.inv, fun j other => quiet j fun mine => ?_, ⟨fun other => absurd written other,
      fun _ => own⟩⟩
    rcases mine with nobody | same
    · rw [written] at nobody
      cases nobody
    · rw [written] at same
      exact absurd (by rw [Option.some.inj same]) other
  · have loaded := knows.unwritten written
    subst loaded
    exact ⟨inv.posted named inv.bootKnown inv.bootSettled (.refl _ _) accepted,
      fun j _ => quiet j fun _ => boot_posted_extends inv named accepted,
      ⟨fun _ => rfl, fun other => absurd other written⟩⟩

variable {α : Type}

/-- Sending the batch in memory; a request without a batch sends nothing. -/
theorem wp_post {id : String} {batch : Amounts} {accepts : Response → Bool}
    {next : Option Response → Routine κ α} {post : α → World κ → Prop} (knows : Knows c st s)
    (same : batch = st.pending) (named : batch ≠ ∅ → id = st.pendingSyncID)
    (rest : ∀ result s, Knows c st s → (result.any accepts = true → Discardable c st s) →
      wp exec (terms c) (next result) post s) :
    wp exec (terms c) (Plane.post c id batch accepts >>= next) post s := by
  refine wp_op knows_stable knows ?_
  intro s inv knows _ fate result s' done
  have valid := knows.valid inv
  rcases post_cases done with ⟨nothing, rfl⟩ | ⟨something, rfl⟩
  · refine ⟨inv, .refl _ s', rest result s' knows ?_⟩
    exact fun _ _ => .inl (valid.mpr (same ▸ nothing))
  have open_ : st.pendingSyncID ≠ "" := fun unnamed => something (same ▸ valid.mp unnamed)
  have equal : ∀ accepted, s.posted { pendingSyncID := id, pending := batch } accepted =
      s.posted st accepted := by
    intro accepted
    unfold World.posted
    rw [named something, same]
  rw [equal]
  obtain ⟨kept, guarantee, knows⟩ := post_step inv knows open_ (result.any accepts)
  refine ⟨kept, guarantee, rest result _ knows fun accepted _ => .inr ?_⟩
  rw [accepted]
  exact Finmap.mem_insert.mpr (.inl rfl)

/-! ### Programs outside the account -/

section Foreign

omit [DecidableEq κ]

variable (me : Actor κ)

theorem resetTraffic_only {allowed : Op κ → Prop} {i : Nat} (lock : allowed (.lock me i))
    (load : ∀ d, allowed (.load i d)) (clear : ∀ d, allowed (.clear me i d false))
    (unlock : allowed (.unlock me i)) : (resetTraffic me i).Only allowed := by
  unfold resetTraffic takeTraffic
  refine .bind ?_ fun _ => .ret _
  refine .step lock fun _ => ?_
  refine .step (load .down) fun sent => ?_
  refine .step (load .up) fun recv => ?_
  split
  · exact .step unlock fun _ => .ret _
  · grind

theorem addUser_only (auth : Nat) (hash : String) :
    (addUser auth hash).Only (Op.Plain me) := by
  grind [addUser, Op.Plain]

theorem delUser_only (auth : Nat) (hash : String) :
    (delUser me auth hash).Only (Op.Plain me) := by
  grind [delUser, resetTraffic_only, Op.Plain]

theorem removeUsers_only (c : κ) (auth : Nat) (hashes : List String) :
    (Manager.removeUsers c auth hashes).Only (Op.Plain (.client c)) := by
  induction hashes with grind [Manager.removeUsers, delUser_only]

theorem addUsers_only (auth : Nat) (hashes : List String) :
    (Manager.addUsers auth hashes).Only (Op.Plain me) := by
  induction hashes with grind [Manager.addUsers, addUser_only]

theorem applyUsers_only (c : κ) (users : List String) (auths : List Nat) :
    (Manager.applyUsers c users auths).Only (Op.Plain (.client c)) := by
  induction auths with grind [Manager.applyUsers, removeUsers_only, addUsers_only, Op.Plain]

theorem syncAuthDelUser_only (hash : String) (auths : List Nat) :
    (syncAuthDelUser me hash auths).Only (Op.Plain me) := by
  induction auths with grind [syncAuthDelUser, delUser_only]

theorem syncAuthAddUser_only (hash : String) (auths : List Nat) :
    (syncAuthAddUser hash auths).Only (Op.Plain me) := by
  induction auths with grind [syncAuthAddUser, addUser_only]

theorem snapshotUsers_only (users : List (Nat × String)) (taken : Snapshots) :
    (snapshotUsers users taken : Routine κ _).Only (Op.Foreign .embedded) := by
  induction users generalizing taken with
  | nil => exact .ret _
  | cons user rest ih =>
    have one : (snapshotUser user.1 user.2 taken : Routine κ _).Only (Op.Foreign .embedded) := by
      refine .bind (by grind [getTraffic, Op.Foreign]) fun traffic => ?_
      grind
    grind [snapshotUsers]

theorem snapshotAuths_only (auths : List Nat) (taken : Snapshots) :
    (snapshotAuths auths taken : Routine κ _).Only (Op.Foreign .embedded) := by
  induction auths generalizing taken with grind [snapshotAuths, snapshotUsers_only, Op.Foreign]

theorem subtractAll_only (collected : List Collected) :
    (subtractAll collected : Routine κ _).Only (Op.Foreign .embedded) := by
  induction collected with
  | nil => exact .ret _
  | cons first rest ih =>
    refine .bind ?_ fun _ => ih
    refine .step rfl fun _ => ?_
    refine .step rfl fun _ => ?_
    exact .step rfl fun _ => .ask rfl

theorem syncEmbeddedTrafficOnce_only (auths : List Nat) :
    (syncEmbeddedTrafficOnce auths : Routine κ _).Only (Op.Foreign .embedded) := by
  grind [syncEmbeddedTrafficOnce, snapshotAuths_only, subtractAll_only, Op.Foreign]

theorem connBody_only {n : Nat} {call : ConnCall} {memory : Option Nat}
    {p : Routine κ (Option Nat)} (found : connBody n call memory = some p) :
    p.Only (Op.Plain (.conn n)) := by
  unfold connBody at found
  split at found
  · cases found
    exact .ask trivial
  · cases found
    exact .bind (by grind [addTraffic, addTraffic64, Op.Plain]) fun _ => .ret _
  · cases found

theorem adminBody_only (n : Nat) (call : AdminCall) :
    (adminBody n call : Routine κ Unit).Only (Op.Plain (.admin n)) := by
  cases call with
    grind [adminBody, addUser_only, delUser_only, updateUser, syncAuthDelUser_only,
      syncAuthAddUser_only]

end Foreign

/-- A program outside the account keeps what a reporter knows. -/
theorem wp_foreign {p : Routine κ α} (only : p.Only (Op.Foreign (.client c))) (knows : Knows c st s) :
    wp exec (terms c) p (fun _ => Knows c st) s := by
  refine wp_only only knows_stable knows ?_
  intro s op inv knows _ foreign fate result s' done
  obtain ⟨kept, guarantee, frame⟩ := foreign_step (.client c) inv foreign done
  exact ⟨kept, guarantee, frame.knows knows kept⟩

/-! ### Whole rounds -/

section Rounds

variable {m : Manager}

section

variable (knows : Knows c m.state.normalize s)

include knows

/-- The sync ID of the request is that of the batch in memory, if there is one. -/
theorem wp_requestSyncID :
    wp exec (terms c) m.requestSyncID
      (fun result s => Knows c m.state.normalize s ∧
        (m.pendingSyncID ≠ "" → result = some m.pendingSyncID)) s := by
  unfold Manager.requestSyncID
  split
  next unnamed =>
    refine wp_op knows_stable knows ?_
    intro s inv knows _ fate result s' done
    obtain ⟨kept, related, _⟩ := newSyncID_step inv done
    refine ⟨kept, fun c _ => related c, ?_⟩
    exact wp_return knows_stable (knows.rely (related c) kept) fun s _ knows =>
      ⟨knows, fun named => absurd unnamed named⟩
  · exact wp_return knows_stable knows fun s _ knows => ⟨knows, fun _ => rfl⟩

theorem wp_discard (done : Discardable c m.state s) :
    wp exec (terms c) (m.discard c) (fun r => Knows c r.1.state.normalize) s := by
  unfold Manager.discard
  split
  · exact wp_value knows_stable knows
  · exact wp_acknowledge Manager.owner knows done

/-- A round of the manager, whatever fails in it. -/
theorem wp_performSync {auths : List Nat} {hasDb : Bool} :
    wp exec (terms c) (m.performSync c auths hasDb)
      (fun m' => Knows c m'.state.normalize) s := by
  unfold Manager.performSync
  refine wp_seq (terms_lawful c)
    (wp_foreign (.ask trivial) knows) fun ready s _ knows => ?_
  split
  swap
  · exact wp_value knows_stable knows
  split
  · exact wp_value knows_stable knows
  split
  · exact wp_value knows_stable knows
  refine wp_seq (terms_lawful c) (wp_collectAuths Manager.owner auths knows) ?_
  rintro ⟨m, _ | reason⟩ s _ knows
  swap
  · exact wp_value knows_stable knows
  refine wp_seq (terms_lawful c) (wp_freeze Manager.owner knows) ?_
  rintro ⟨m, _ | reason⟩ s _ knows
  swap
  · exact wp_value knows_stable knows
  refine wp_seq (terms_lawful c) (wp_requestSyncID knows) ?_
  rintro (_ | id) s inv ⟨knows, named⟩
  · exact wp_value knows_stable knows
  -- a round without a batch draws a sync ID of its own, which is not kept
  have same : m.pendingTraffic ≠ ∅ → id = m.pendingSyncID := by
    intro pending
    have open_ : m.pendingSyncID ≠ "" := fun unnamed => pending ((knows.valid inv).mp unnamed)
    exact Option.some.inj (named open_)
  refine wp_post knows rfl same fun result s knows answered => ?_
  cases result with
  | none => exact wp_value knows_stable knows
  | some response =>
    dsimp only
    split
    · exact wp_value knows_stable knows
    next users accepted =>
      have done : Discardable c m.state s :=
        answered (by simp [Manager.acceptsResponse, accepted])
      refine wp_seq (terms_lawful c) (wp_discard knows done) ?_
      rintro ⟨m, _ | reason⟩ s _ knows
      · refine wp_seq (terms_lawful c) (wp_foreign
          ((applyUsers_only c users auths).mono fun _ => Op.Plain.foreign) knows) ?_
        intro _ s _ knows
        split
        · refine wp_seq (terms_lawful c)
            (wp_foreign (.ask trivial) knows) fun cached s _ knows => ?_
          split
          · exact wp_value knows_stable knows
          · exact wp_value knows_stable knows
        · exact wp_value knows_stable knows
      · exact wp_value knows_stable knows

end

/-- A flush of a listener's reporter. -/
theorem wp_flush {auth : Nat} {r : Reporter} (knows : Knows c r.state.normalize s) :
    wp exec (terms c) (r.flush c auth) (fun r' => Knows c r'.1.state.normalize) s := by
  unfold Reporter.flush
  split
  · exact wp_value knows_stable knows
  refine wp_seq (terms_lawful c) (wp_collectAuths Reporter.owner [auth] knows) ?_
  rintro ⟨r, _ | reason⟩ s _ knows
  swap
  · exact wp_value knows_stable knows
  refine wp_seq (terms_lawful c) (wp_freeze Reporter.owner knows) ?_
  rintro ⟨r, _ | reason⟩ s _ knows
  swap
  · exact wp_value knows_stable knows
  dsimp only
  split
  · exact wp_value knows_stable knows
  next id traffic pending =>
    have batch : traffic = r.state.pending ∧ id = r.state.pendingSyncID := by
      simp [Reporter.state, pending]
    refine wp_post knows batch.1 (fun _ => batch.2) fun result s knows answered => ?_
    cases result with
    | none => exact wp_value knows_stable knows
    | some response =>
      dsimp only
      split
      next accepted => exact wp_acknowledge Reporter.owner knows (answered accepted)
      · exact wp_value knows_stable knows

end Rounds

/-! ### The process keeps the account -/

/-- A program of another goroutine. -/
theorem wp_outside (me : Actor κ) {rely : World κ → World κ → Prop} {p : Routine κ α}
    (only : p.Only (Op.Foreign me)) :
    wp exec ⟨SoleWriter, Inv, rely, Guarantee me⟩ p (fun _ _ => True) s := by
  refine wp_only only (fun _ _ _ _ _ => trivial) trivial ?_
  intro s op inv _ _ foreign fate result s' done
  obtain ⟨kept, guarantee, _⟩ := foreign_step me inv foreign done
  exact ⟨kept, guarantee, trivial⟩

theorem Manager.start_state (disk : Disk) : (Manager.start disk).state.normalize = disk.content := by
  unfold Manager.start
  split
  next reason failed =>
    cases disk with
    | absent | stored => cases failed
    | unreadable reason => rfl
  next st loaded =>
    rw [Disk.load_content loaded]
    have normal := disk.content_normal
    cases found : disk.content
    simp_all [Manager.state, State.normalize]

theorem Reporter.start_state (disk : Disk) :
    (Reporter.start disk).state.normalize = disk.content := by
  unfold Reporter.start
  split
  next reason failed =>
    cases disk with
    | absent | stored => cases failed
    | unreadable reason => rfl
  next st loaded =>
    rw [Disk.load_content loaded]
    have normal := disk.content_normal
    have valid := disk.content_valid
    cases found : disk.content
    by_cases pending : disk.content.pending = ∅ <;>
      simp_all [Reporter.state, State.normalize]

omit [DecidableEq κ] in
/-- A reporter starts with what the file holds. -/
theorem start_memory (clients : κ → Client) (s : World κ) (c : κ) :
    (memory clients s (.client c)).state.normalize = s.file := by
  unfold memory
  dsimp only
  split
  · exact Manager.start_state s.disk
  · exact Reporter.start_state s.disk

omit [DecidableEq κ] in
/-- A restart turns the bytes of the file into taken ones. -/
theorem Inv.restart (inv : Inv s) : Inv s.restart := by
  have taken : s.restart.taken = held s.acked s.file := by
    funext h d
    exact Nat.max_eq_right (inv.upper h d)
  have file : s.restart.Tracks s.file := ⟨inv.file.valid, inv.file.known, inv.file.covers⟩
  -- what was counted and did not reach the file is lost
  have lost : ∀ h d, s.restart.lost h d + held s.acked s.file h d = s.counted h d := by
    intro h d
    have kept := congrFun (congrFun taken h) d
    have bounded := inv.bounded h d
    change s.counted h d - s.restart.taken h d + _ = _
    omega
  exact
    { inv with
      balanced := by
        intro h d
        have kept := congrFun (congrFun taken h) d
        have rest := lost h d
        have live : s.restart.live h d = 0 := rfl
        have drained : s.restart.drained h d = 0 := rfl
        have gone : s.restart.gone h d = 0 := rfl
        change s.counted h d = _
        omega
      file := file
      bootValid := inv.file.valid
      bootKnown := file.known
      bootSettled := .refl _ _
      lower := by
        intro h d
        rw [taken]
        exact Nat.le_add_left _ _
      upper := by
        intro h d
        rw [taken]
        exact Nat.le_refl _
      bounded := by
        intro h d
        have rest := lost h d
        change held s.acked s.file h d + _ ≤ s.counted h d
        omega
      unwritten := fun _ => ⟨rfl, taken⟩ }

/-- The protocol between the goroutines of the process. -/
def protocol (clients : κ → Client) (embedded : List Nat) (restarts : Bool) :
    Machine.Protocol (machine clients embedded restarts) where
  admits := SoleWriter
  inv := Inv
  rely := fun
    | .client c => Rely c
    | _ => fun _ _ => True
  guar := Guarantee
  knows := fun
    | .client c => fun memory => Knows c (ClientMemory.state memory).normalize
    | _ => fun _ _ => True

theorem protocol_sound (clients : κ → Client) (embedded : List Nat) (restarts : Bool) :
    (protocol clients embedded restarts).Sound where
  lawful := by
    intro i
    cases i with
    | client c => exact terms_lawful c
    | _ => exact ⟨fun _ => trivial, fun _ _ _ _ _ => trivial⟩
  stable := by
    intro i memory s s' knows related inv
    cases i with
    | client c => exact Knows.rely knows related inv
    | _ => trivial
  compatible := by
    -- only reporters rely on anything
    intro i j s s' other guarantee
    cases j with
    | client c => exact guarantee c other
    | _ => trivial
  body := by
    intro i call memory p s found knows
    cases i with
    | client c =>
      change clientBody c (clients c) memory = some p at found
      unfold clientBody at found
      split at found
      · cases found
        refine wp_seq (terms_lawful c) (wp_performSync knows) fun m s _ knows => ?_
        exact wp_value knows_stable knows
      · cases found
        refine wp_seq (terms_lawful c) (wp_flush knows) ?_
        rintro ⟨r, failure⟩ s _ knows
        exact wp_value knows_stable knows
      · cases found
    | conn n =>
      exact wp_outside (.conn n) ((connBody_only found).mono fun _ => Op.Plain.foreign)
    | admin n =>
      cases found
      exact wp_outside (.admin n) ((adminBody_only n call).mono fun _ => Op.Plain.foreign)
    | embedded =>
      refine wp_outside .embedded ?_
      cases found
      exact .bind (syncEmbeddedTrafficOnce_only embedded) fun _ => .ret _
  boot := by
    intro s s' inv kept
    rw [restart_of_reboot kept]
    refine ⟨inv.restart, fun i => ?_⟩
    cases i with
    | client c => exact ⟨fun _ => start_memory clients _ c, fun written => by cases written⟩
    | _ => trivial

/-! ### The first start -/

/-- A process that starts for the first time with the given outbox file and database. The
bytes of the file count as counted and taken. -/
def World.initial (disk : Disk) (db : Master.Db) : World κ :=
  { disk := disk
    db := db
    ids := [disk.content.pendingSyncID]
    boot := disk.content
    counted := held ∅ disk.content
    taken := held ∅ disk.content }

omit [DecidableEq κ] in
theorem Inv.initial (disk : Disk) (db : Master.Db) : Inv (World.initial disk db : World κ) := by
  have nothing : ∀ id batch, (∅ : Batches).lookup id = some batch → False := by
    intro id batch found
    simp at found
  have known : (World.initial disk db : World κ).Known disk.content :=
    fun _ => ⟨List.mem_singleton_self _, fun batch found => (nothing _ batch found).elim⟩
  exact
    { balanced := by
        intro h d
        simp [World.initial, World.live]
      ackedSent := fun id batch found => (nothing id batch found).elim
      sentNamed := fun id batch found => (nothing id batch found).elim
      file := ⟨disk.content_valid, known, fun id batch found => (nothing id batch found).elim⟩
      bootValid := disk.content_valid
      bootKnown := known
      bootSettled := .refl _ _
      lower := fun h d => Nat.le_add_left _ _
      upper := fun h d => Nat.le_refl _
      bounded := fun h d => Nat.le_refl _
      unwritten := fun _ => ⟨rfl, rfl⟩ }

theorem good_initial (clients : κ → Client) (embedded : List Nat) (restarts : Bool) (disk : Disk)
    (db : Master.Db) : (protocol clients embedded restarts).Good
      ((machine clients embedded restarts).boot (World.initial disk db)) := by
  refine ⟨Inv.initial disk db, fun i => ?_⟩
  cases i with
  | client c => exact ⟨fun _ => start_memory clients _ c, fun written => by cases written⟩
  | _ => trivial

end TrojanGo.Plane
