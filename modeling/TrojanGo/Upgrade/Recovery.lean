import TrojanGo.Upgrade.Phases

/-!
# Recovery

A recovery keeps the invariant at every crash, if it does not finish the commit of a transaction
whose rollback has started.
-/
namespace TrojanGo.Upgrade

open Lib Prog

variable {C : Type} {env : Env C} {s s' : World C} {stateDir : Path} {strict : Prop}
  {t : Transaction C}

/-- The operation records a commit although a rollback of the transaction has started. -/
def Op.resumesUndone (s : World C) : Op C → Bool
  | .act (.append _ record) => record.status == .committedAfterRecovery && s.undone
  | _ => false

/-- The operation starts a rollback of a transaction that has a commit record. -/
def Op.undoesCommitted (s : World C) : Op C → Bool
  | .rollback =>
    match s.current with
    | some t => s.audits.any fun e => e.record.id == t.id && e.record.status.commits
    | none => false
  | _ => false

def Admits (strict : Prop) (s : World C) (op : Op C) : Prop :=
  op.resumesUndone s = false ∧ (strict → op.undoesCommitted s = false)

variable {path : Path}

/-- A commit that a recovery records is of a transaction that is not being rolled back. -/
theorem Admits.permitted {record : UpgradeAuditRecord}
    (permitted : Permitted (Admits strict) path record s)
    (status : record.status = .committedAfterRecovery) : s.undone = false := by
  obtain ⟨s₁, _, undone, admitted, _⟩ := permitted
  simp only [Op.resumesUndone, status, BEq.rfl, Bool.true_and] at admitted
  rw [← undone, admitted]

theorem Admits.rollback (current : s.current = some t) (admitted : Admits strict s .rollback)
    (watched : strict) : ¬ Recorded s t.id AuditStatus.commits := by
  rintro ⟨e, mem, same, commits⟩
  have none := admitted.2 watched
  simp only [Op.undoesCommitted, current, List.any_eq_false] at none
  exact none e mem (by simp [same, commits])

/-! ### Steps of a program -/

section Steps

variable {admits : World C → Op C → Prop} {inv : World C → Prop}

theorem wp_ask_calm {α : Type} {op : Op C} {f : Res op → Fallible C α}
    {post : Except String α → World C → Prop} (calm : op.calm = true) (holds : inv s)
    (rest : ∀ value, wp (exec env) (.alone admits inv) (f value).run post s) :
    wp (exec env) (.alone admits inv) (ask op >>= f).run post s := by
  apply wp_lift (wp_looks (.ask calm) wp_trivial holds)
  rintro value s' _ ⟨_, rfl⟩
  exact rest value

theorem wp_attempt_calm {α β : Type} {p : Fallible C α} {f : Except String α → Fallible C β}
    {post : Except String β → World C → Prop} (calm : p.run.Only fun op => op.calm = true)
    (holds : inv s)
    (rest : ∀ value, wp (exec env) (.alone admits inv) (f value).run post s) :
    wp (exec env) (.alone admits inv) (attempt p >>= f).run post s := by
  apply wp_lift (wp_looks calm wp_trivial holds)
  rintro value s' _ ⟨_, rfl⟩
  exact rest value

end Steps

/-! ### What a successful recovery leaves -/

variable {admits : World C → Op C → Prop}

theorem read_spec :
    wp (exec env) (.alone admits fun _ => True) (Prog.ask (.read path))
      (fun (result : Except Failure C) _ => (∀ content, result = .ok content → s.tree.read path = .ok content) ∧
      ∀ e, result = .error e → e.missing = true → s.tree.node path = none) s := by
  apply wp_last
  intro fate result s' _ done
  have answered := congrArg Prod.fst (Option.some.inj done)
  refine ⟨trivial, ?_, ?_⟩
  · rintro content rfl
    exact answer_ok answered
  · rintro e rfl missing
    exact FileTree.read_noEntry (answer_missing answered missing)

theorem wp_read {inv : World C → Prop} {α : Type} {f : Except Failure C → Fallible C α}
    {post : Except String α → World C → Prop} (holds : inv s)
    (rest : ∀ result, (∀ content, result = .ok content → s.tree.read path = .ok content) →
      (∀ e, result = .error e → e.missing = true → s.tree.node path = none) →
      wp (exec env) (.alone admits inv) (f result).run post s) :
    wp (exec env) (.alone admits inv) (ask (.read path) >>= f).run post s := by
  apply wp_lift (wp_looks (.ask rfl) read_spec holds)
  rintro result s' _ ⟨⟨found, missing⟩, rfl⟩
  exact rest result found missing

variable {journal : UpgradeJournal} {cause : List String}

/-- If it returns without error, the journal is gone. -/
theorem undoInterrupted_spec :
    Ensures (exec env) admits (undoInterrupted env path journal cause)
      (fun _ s' => s'.tree.node path = none) s := by
  unfold undoInterrupted
  dsimp only
  split
  · exact ensures_throw
  refine ensures_after fun rolledBack s₁ => ensures_after fun endedAt s₂ => ?_
  cases rolledBack with
  | error e => exact ensures_after fun _ _ => ensures_throw
  | ok _ =>
    refine ensures_after fun audited s₃ => ensures_bind (ensures_lift removeAndSync_spec) ?_
    intro cleared s₄ established
    cases cleared with
    | error e => exact ensures_throw
    | ok _ =>
      cases audited with
      | error e => exact ensures_throw
      | ok _ => exact ensures_pure established

theorem recoverInterruptedUpgrade_spec :
    Ensures (exec env) admits (recoverInterruptedUpgrade env path)
      (fun _ s' => s'.tree.node path = none) s := by
  apply wp_read trivial
  intro result _ missing
  cases result with
  | error e =>
    dsimp only
    split
    next absent => exact ensures_pure (missing e rfl absent)
    · exact ensures_throw
  | ok data =>
    dsimp only
    split
    · exact ensures_throw
    next journal _ =>
      unfold recoverJournal
      split
      · exact removeAndSync_spec
      split
      · refine ensures_after fun waits s₁ => ensures_after fun healthy s₂ => ?_
        cases healthy with
        | error e => exact undoInterrupted_spec
        | ok _ =>
          exact ensures_after fun endedAt _ => ensures_after fun _ _ => ensures_after fun _ _ =>
            removeAndSync_spec
      · exact undoInterrupted_spec

/-! ### Recovery of the current transaction -/

/-- The phase of a journal is not part of what it says about the transaction. -/
theorem Describes.phase {plan : Plan} {j : UpgradeJournal} (describes : Describes env plan j)
    (phase : Phase) : Describes env plan { j with phase } :=
  ⟨describes.id, describes.artifacts, describes.hashes, describes.auditLog, describes.transaction⟩

section Swap

variable {n : Option (Node C)} (holds : Holds env stateDir strict s) (current : s.current = some t)
  (swapped : Swapped (activeJournal stateDir) n s s')

include holds current swapped

theorem Swapped.inside : t.SameInside s.tree s'.tree :=
  Stays.sibling_inside swapped.stays (holds.1.current t current).1

theorem Swapped.targets : t.SameTargets env s.tree s'.tree :=
  Stays.sibling_targets holds.1 swapped.stays current

end Swap

section Recover

variable {j : UpgradeJournal}

section

variable (holds : Holds env stateDir strict s) (current : s.current = some t)

include holds current

theorem wp_resumeCommit (journaled : Journaled env t s j) (healthy : j.phase = .healthy) :
    Maintains env (Admits strict) stateDir strict
      (resumeCommit env (activeJournal stateDir) j).run (fun _ _ => True) s := by
  have proper := (holds.1.current t current).1
  apply wp_ask_calm rfl holds
  intro endedAt
  apply wp_try (wp_adapt (wp_outcome (wp_log holds current journaled.describes.auditLog ?_)))
  · rintro _ s₁ holds₁ ⟨⟨permitted, _⟩, logged⟩
    -- the append was admitted, so no rollback has started and the targets are new
    have new := journaled.healthy healthy (Admits.permitted permitted rfl)
    have inside := Logged.inside proper logged.tree
    have current₁ := logged.current current
    have committed : Journaled env t s₁ { j with phase := .committed } :=
      ⟨journaled.describes.phase _, journaled.backed.frame inside, nofun,
        fun _ => new.frame inside (Logged.targets proper logged.tree)⟩
    apply wp_try (wp_adapt (wp_outcome (wp_writeJournal holds₁ current₁ committed)))
    · rintro _ s₂ holds₂ ⟨_, swapped⟩
      have new₂ := (committed.committed rfl).frame (Swapped.inside holds₁ current₁ swapped)
        (Swapped.targets holds₁ current₁ swapped)
      refine wp_mono (fun _ _ _ _ => trivial) (wp_clearJournal holds₂ ?_ (.inr new₂))
      exact swapped.stays.current current₁
    · intros
      trivial
  · intros
    trivial
  · intro watched
    refine ⟨journaled.describes.id, ?_, nofun⟩
    intro _ permitted
    have still := Admits.permitted permitted rfl
    refine ⟨journaled.healthy healthy still, journaled.describes.hashes, ?_⟩
    intro undone
    rw [(holds.2 watched).undone t current undone] at still
    cases still

theorem wp_undoInterrupted (there : OnDisk env t.toPlan s j) (journaled : Journaled env t s j)
    (uncommitted : j.phase ≠ .committed) :
    Maintains env (Admits strict) stateDir strict
      (undoInterrupted env (activeJournal stateDir) j cause).run (fun _ _ => True) s := by
  have proper := (holds.1.current t current).1
  unfold undoInterrupted
  dsimp only
  split
  · exact wp_throw trivial
  apply wp_lift (wp_rollbackUpgrade holds current (.of_journaled there journaled uncommitted)
    journaled.backed)
  rintro rolledBack s₁ holds₁ ⟨⟨_, worked, admitted⟩, restored⟩
  have current₁ := worked.current current
  apply wp_ask_calm rfl holds₁
  intro endedAt
  cases rolledBack with
  | error e =>
    apply wp_lift (wp_log holds₁ current₁ journaled.describes.auditLog
      fun _ => .neutral journaled.describes.id rfl rfl)
    intros
    exact wp_throw trivial
  | ok _ =>
    -- all targets are old, so the journal may go
    have old := restored rfl
    apply wp_lift (wp_log holds₁ current₁ journaled.describes.auditLog ?_)
    · rintro audited s₂ holds₂ ⟨_, logged⟩
      have old₂ := old.frame (Logged.targets proper logged.tree)
      apply wp_lift (wp_clearJournal holds₂ (logged.current current₁) (.inl old₂))
      intro cleared s₃ _ _
      split
      · exact wp_success trivial
      · exact wp_throw trivial
    · intro watched
      refine ⟨journaled.describes.id, nofun, fun _ => ⟨worked.undone, ?_⟩⟩
      rintro ⟨e, mem, same, commits⟩
      rw [worked.audits] at mem
      exact admitted.rollback current watched ⟨e, mem, same, commits⟩

theorem wp_recoverJournal (there : OnDisk env t.toPlan s j) (journaled : Journaled env t s j) :
    Maintains env (Admits strict) stateDir strict
      (recoverJournal env (activeJournal stateDir) j).run (fun _ _ => True) s := by
  unfold recoverJournal
  split
  next committed =>
    exact wp_mono (fun _ _ _ _ => trivial)
      (wp_clearJournal holds current (.inr (journaled.committed committed)))
  next uncommitted =>
    split
    next healthy =>
      apply wp_ask_calm rfl holds
      intro waits
      apply wp_attempt_calm (checkUpgradeHealth_only fun _ => id) holds
      intro checked
      cases checked with
      | ok _ => exact wp_resumeCommit holds current journaled healthy
      | error e => exact wp_undoInterrupted holds current there journaled uncommitted
    · exact wp_undoInterrupted holds current there journaled uncommitted

end

end Recover

/-! ### Recovery of a journal that was there before the first transaction -/

def Op.begins : Op C → Bool
  | .act (.begin _) => true
  | _ => false

section NotBegins

theorem calm_begins (op : Op C) (calm : op.calm = true) : op.begins = false := by
  cases op with
  | act a => cases a <;> first | rfl | cases calm
  | _ => rfl

theorem rollbackUpgrade_begins :
    (rollbackUpgrade env journal : Fallible C Unit).run.Only fun op => op.begins = false := by
  have calm := calm_begins (C := C)
  refine only_try (ask_only (by rfl)) ?_
  intro _
  apply only_try (only_lift _)
  · intro errors
    split
    · trivial
    · exact restartAndCheck_only calm
  generalize journal.backups.reverse = backups
  induction backups with
  | nil => trivial
  | cons backup backups ih =>
    apply Only.bind
    · unfold restoreBackup
      split
      · exact wrap_only (atomicInstallFile_only calm rfl fun _ => rfl)
      · apply only_try (wrap_only (unlink_only (by rfl)))
        intro removed
        split
        · exact syncDirectoryPath_only calm
        · trivial
    · intro restored
      apply Only.bind ih
      intro errors
      cases restored <;> trivial

theorem undoInterrupted_begins :
    (undoInterrupted env path journal cause).run.Only fun op => op.begins = false := by
  have calm := calm_begins (C := C)
  unfold undoInterrupted
  dsimp only
  split
  · trivial
  apply only_try (only_lift rollbackUpgrade_begins)
  intro rolledBack
  refine only_try (ask_only (by rfl)) ?_
  intro endedAt
  cases rolledBack with
  | error e =>
    exact only_try (only_lift (appendUpgradeAudit_only calm (by rfl) (by rfl) (by rfl))) fun _ => trivial
  | ok _ =>
    apply only_try (only_lift (appendUpgradeAudit_only calm (by rfl) (by rfl) (by rfl)))
    intro audited
    apply only_try (only_lift (removeAndSync_only calm (by rfl)))
    intro cleared
    split <;> trivial

theorem recoverInterruptedUpgrade_begins :
    (recoverInterruptedUpgrade env path).run.Only fun op => op.begins = false := by
  have calm := calm_begins (C := C)
  refine only_try (ask_only (by rfl)) ?_
  intro result
  cases result with
  | error e =>
    dsimp only
    split <;> trivial
  | ok data =>
    dsimp only
    split
    · trivial
    unfold recoverJournal
    split
    · exact removeAndSync_only calm (by rfl)
    split
    · refine only_try (ask_only (by rfl)) ?_
      intro waits
      apply only_try (only_lift (checkUpgradeHealth_only calm))
      intro checked
      cases checked with
      | error e => exact undoInterrupted_begins
      | ok _ =>
        refine only_try (ask_only (by rfl)) ?_
        intro endedAt
        apply only_try (wrap_only (appendUpgradeAudit_only calm (by rfl) (by rfl) (by rfl)))
        intro _
        apply only_try (wrap_only (writeJSONAtomic_only calm (by rfl) (by rfl)))
        intro _
        exact removeAndSync_only calm (by rfl)
    · exact undoInterrupted_begins

end NotBegins

/-- Before the first transaction the invariant asks for nothing. -/
theorem Holds.of_nil (loose : ¬ strict) (begun : s.begun = []) : Holds env stateDir strict s := by
  refine ⟨⟨?_, ?_, ?_⟩, fun watched => absurd watched loose⟩
  · simp [begun]
  · simp [begun]
  · intro t current
    exact absurd begun (World.begun_ne_nil current)

/-- At every crash of a recovery the invariant holds. -/
theorem recoverInterruptedUpgrade_keeps (holds : Holds env stateDir strict s) :
    Maintains env (Admits strict) stateDir strict
      (recoverInterruptedUpgrade env (activeJournal stateDir)).run (fun _ _ => True) s := by
  by_cases foreign : ¬ strict ∧ s.begun = []
  · -- whatever the journal says, a recovery begins no transaction
    have kept : Maintains env (Admits strict) stateDir strict
        (recoverInterruptedUpgrade env (activeJournal stateDir)).run
        (fun _ s' => True ∧ s'.begun = []) s := by
      refine wp_call recoverInterruptedUpgrade_begins wp_trivial (by exact foreign.2) ?_ ?_
      · intro s₁ op begun _ begins fate result s₂ done
        cases exec_effect done with
        | begin => cases begins
        | _ => exact begun
      · intro s₁ begun
        exact .of_nil foreign.1 begun
    exact wp_mono (fun _ _ _ _ => trivial) kept
  · apply wp_read holds
    intro result found missing
    cases result with
    | error e =>
      dsimp only
      split
      · exact wp_success trivial
      · exact wp_throw trivial
    | ok data =>
      obtain ⟨mode, there⟩ := FileTree.read_ok (found data rfl)
      cases current : s.current with
      | none =>
        -- a journal without a transaction: only in runs whose log is not looked at
        have begun : s.begun = [] := List.head?_eq_none_iff.mp current
        have watched : strict := by
          by_contra loose
          exact foreign ⟨loose, begun⟩
        rw [(holds.2 watched).fresh begun] at there
        cases there
      | some t =>
        obtain ⟨proper, ⟨absent, _⟩ | ⟨j, onDisk, journaled⟩⟩ := holds.1.current t current
        · rw [proper.stateDir, there] at absent
          cases absent
        · -- the journal that was read is the one the invariant speaks of
          obtain ⟨mode', same⟩ := id onDisk
          rw [proper.stateDir, there] at same
          cases same
          dsimp only
          rw [env.journal_roundtrip]
          exact wp_recoverJournal holds current onDisk journaled

theorem wp_recoverInterruptedUpgrade (holds : Holds env stateDir strict s) :
    Maintains env (Admits strict) stateDir strict
      (recoverInterruptedUpgrade env (activeJournal stateDir)).run
      (outcome (fun _ s' => s'.tree.node (activeJournal stateDir) = none) (fun _ => True)) s := by
  have both := wp_with recoverInterruptedUpgrade_spec (recoverInterruptedUpgrade_keeps holds)
  exact wp_mono (fun _ _ _ established => established.1) both

end TrojanGo.Upgrade
