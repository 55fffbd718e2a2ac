import TrojanGo.Upgrade.Recovery

/-!
# Execution

A transaction keeps the invariant at every crash, whatever the host and the file system answer.
-/
namespace TrojanGo.Upgrade

open Lib Prog List

variable {C : Type} {env : Env C} {admits : World C → Op C → Prop} {s s' : World C}
  {stateDir : Path} {strict : Prop} {t : Transaction C} {journal : UpgradeJournal}

/-! ### From the prepared journal to the healthy one -/

/-- The journal of the transaction is on disk and not committed; the backups are intact. -/
structure Underway (env : Env C) (t : Transaction C) (journal : UpgradeJournal) (s : World C) :
    Prop where
  opened : Opened env t { s with undone := true }
  backed : Backed env t s.tree journal.backups

variable {n : Option (Node C)} {manifest : UpgradeManifest}

section

variable (holds : Holds env stateDir strict s) (current : s.current = some t)

include holds current

theorem Worked.of_swapped (swapped : Swapped (activeJournal stateDir) n s s') :
    Worked t s s' :=
  swapped.stays.mono fun _ => swapped.inside holds current

/-- The journal goes on to a phase that is not the last one. -/
theorem wp_advance {phase : Phase} (describes : Describes env t.toPlan journal)
    (underway : Underway env t journal s) (uncommitted : phase ≠ .committed)
    (new : phase = .healthy → AllNew env t.toPlan s.tree) :
    Maintains env admits stateDir strict
      (writeJSONAtomic env (activeJournal stateDir) { journal with phase } 0o600).run
      (fun _ s' => (Underway env t journal s' ∧ Worked t s s') ∧ t.SameTargets env s.tree s'.tree) s := by
  have proper := (holds.1.current t current).1
  have journaled : Journaled env t s { journal with phase } :=
    ⟨describes.phase phase, underway.backed, fun healthy _ => new healthy,
      fun committed => absurd committed uncommitted⟩
  apply wp_mono _ (wp_writeJournal holds current journaled)
  rintro _ s' _ ⟨_, swapped⟩
  have worked := Worked.of_swapped holds current swapped
  refine ⟨⟨⟨?_, underway.backed.frame worked.tree⟩, worked⟩, swapped.targets holds current⟩
  rcases swapped.node with same | written
  · obtain ⟨j, ⟨mode, there⟩, described, backed, rest⟩ := underway.opened
    refine ⟨j, ⟨mode, ?_⟩, described, backed.frame worked.tree, rest⟩
    rw [proper.stateDir] at there ⊢
    exact same.trans there
  · refine ⟨_, ⟨0o600, ?_⟩, journaled.describes, underway.backed.frame worked.tree, uncommitted,
      fun _ => rfl⟩
    rw [proper.stateDir]
    exact written

end

theorem AllStaged.frame {plan : Plan} {tree tree' : FileTree C} (copies : AllStaged env plan tree)
    (inside : plan.SameInside tree tree') : AllStaged env plan tree' :=
  fun i a found => (copies i a found).keep fun _ => (inside _ (stagedPath_inside plan.dir i)).trans

/-- Installed copies of what was staged. -/
theorem AllNew.of_installed {plan : Plan} {tree : FileTree C}
    (copies : AllStaged env plan tree)
    (installed : Installed env (stagedPairs plan.dir 0 plan.artifacts) tree) :
    AllNew env plan tree := by
  intro i a found
  obtain ⟨content, mode, there, sum⟩ := copies i a found
  have pair : (a, stagedPath plan.dir i) ∈ stagedPairs plan.dir 0 plan.artifacts := by
    refine mem_map.mpr ⟨(a, i), ?_, rfl⟩
    exact mem_zipIdx_iff_getElem?.mpr found
  obtain ⟨content', mode', there', target⟩ := installed _ pair
  rw [there] at there'
  cases there'
  exact ⟨content, ⟨sum, mode, there⟩, target⟩

theorem stagedPairs_members {dir : Path} {artifacts : List UpgradeArtifact} :
    ∀ pair ∈ stagedPairs dir 0 artifacts, pair.1 ∈ artifacts ∧ dir <:+ pair.2.tail := by
  intro pair mem
  obtain ⟨⟨a, i⟩, found, rfl⟩ := mem_map.mp mem
  refine ⟨?_, stagedPath_inside dir i⟩
  exact mem_of_getElem? (mem_zipIdx_iff_getElem?.mp found)

theorem stagedPairs_paths (dir : Path) (artifacts : List UpgradeArtifact) :
    (stagedPairs dir 0 artifacts).map (fun pair => pair.1.place env) =
      artifacts.map (UpgradeArtifact.place env) := by
  have firsts : ∀ i, (artifacts.zipIdx i).map (fun pair => pair.1.place env) =
      artifacts.map (UpgradeArtifact.place env) := by
    induction artifacts with
    | nil => exact fun _ => rfl
    | cons a artifacts ih => exact fun i => congrArg (a.place env :: ·) (ih (i + 1))
  rw [stagedPairs, map_map]
  exact firsts 0

theorem wp_switchUpgrade (holds : Holds env stateDir strict s) (current : s.current = some t)
    (describes : Describes env t.toPlan journal) (backed : Backed env t s.tree journal.backups)
    (opened : Opened env t s)
    (copies : AllStaged env t.toPlan s.tree) :
    Maintains env admits stateDir strict
      (switchUpgrade env (activeJournal stateDir) journal (stagedPairs t.dir 0 t.artifacts)).run
      (outcome (fun _ s' => (Underway env t journal s' ∧ Worked t s s') ∧
          AllNew env t.toPlan s'.tree)
        fun s' => Underway env t journal s' ∧ Worked t s s') s := by
  have proper := (holds.1.current t current).1
  have distinct : ((stagedPairs t.dir 0 t.artifacts).map fun pair => pair.1.place env).Nodup := by
    rw [stagedPairs_paths]
    exact proper.distinct
  have underway {s₁ : World C} (opened₁ : Opened env t s₁) (worked : Worked t s s₁) :
      Underway env t journal s₁ := by
    obtain ⟨j, there, described, backed₁, uncommitted, _⟩ := opened₁
    exact ⟨⟨j, there, described, backed₁, uncommitted, fun _ => rfl⟩, backed.frame worked.tree⟩
  apply wp_try (wp_applyUpgrade stagedPairs_members distinct holds current opened)
  · rintro _ s₁ holds₁ ⟨⟨opened₁, worked₁⟩, installed, _⟩
    have new₁ : AllNew env t.toPlan s₁.tree := by
      apply AllNew.of_installed _ installed
      exact copies.frame worked₁.tree
    have current₁ := worked₁.current current
    apply wp_try (wp_always (wp_advance holds₁ current₁ describes (underway opened₁ worked₁)
      (by simp) (by simp)))
    · rintro _ s₂ holds₂ ⟨⟨underway₂, worked₂⟩, targets₂⟩
      have new₂ := new₁.frame worked₂.tree targets₂
      have current₂ := worked₂.current current₁
      have worked := worked₁.trans worked₂
      -- the services run on the new files
      apply wp_try (wp_always (wp_looks (restartAndCheck_only fun _ => id) wp_trivial holds₂))
      · rintro _ s₃ holds₃ ⟨_, rfl⟩
        apply wp_adapt
        apply wp_mono _ (wp_advance holds₃ current₂ describes underway₂ (by simp) fun _ => new₂)
        rintro result s₄ _ ⟨⟨underway₄, worked₄⟩, targets₄⟩
        cases result with
        | ok _ => exact ⟨⟨underway₄, worked.trans worked₄⟩, new₂.frame worked₄.tree targets₄⟩
        | error e => exact ⟨underway₄, worked.trans worked₄⟩
      · rintro e s₃ _ ⟨_, rfl⟩
        exact ⟨underway₂, worked⟩
    · rintro e s₂ _ ⟨⟨underway₂, worked₂⟩, _⟩
      exact ⟨underway₂, worked₁.trans worked₂⟩
  · rintro e s₁ _ ⟨opened₁, worked₁⟩
    exact ⟨underway opened₁ worked₁, worked₁⟩

/-! ### The ends of a transaction -/

/-- The audit log ends with a commit record of the transaction. -/
def CommitLogged (env : Env C) (plan : Plan) (tree : FileTree C) : Prop :=
  ∃ record content mode, record.id = plan.id ∧ record.status = .committed ∧
    tree.node plan.auditLog = some (.file (env.append content (env.recordText record)) mode)

/-- How a transaction ends when nothing crashes. -/
def Ended (env : Env C) (t : Transaction C) (result : Except String Unit) (s : World C) : Prop :=
  s.current = some t ∧ outcome
    (fun _ s => AllNew env t.toPlan s.tree ∧ s.tree.node (activeJournal t.stateDir) = none)
    (fun s => s.tree.node (activeJournal t.stateDir) ≠ none ∨ AllOld env t s.tree ∨
      AllNew env t.toPlan s.tree ∧ CommitLogged env t.toPlan s.tree) result s

theorem CommitLogged.swapped (proper : t.Proper env stateDir)
    (swapped : Swapped (activeJournal stateDir) n s s') (logged : CommitLogged env t.toPlan s.tree) :
    CommitLogged env t.toPlan s'.tree := by
  obtain ⟨record, content, mode, id, status, there⟩ := logged
  refine ⟨record, content, mode, id, status, swapped.stays.tree.kept ?_ there⟩
  intro same
  exact proper.journal_log (same ▸ suffix_rfl)

section

variable (holds : Holds env stateDir strict s) (current : s.current = some t)

include holds current

/-- The commit is recorded, then the journal is committed, then it is removed. -/
theorem wp_commitUpgrade (describes : Describes env t.toPlan journal)
    (underway : Underway env t journal s) (new : AllNew env t.toPlan s.tree)
    (started : s.undone = false) :
    Maintains env admits stateDir strict
      (commitUpgrade env (activeJournal stateDir) journal).run (Ended env t) s := by
  have proper := (holds.1.current t current).1
  have there : s.tree.node (activeJournal stateDir) ≠ none := by
    obtain ⟨j, ⟨mode, there⟩, _⟩ := underway.opened
    rw [← proper.stateDir, show s.tree.node _ = _ from there]
    simp
  apply wp_ask_calm rfl holds
  intro endedAt
  apply wp_try (wp_adapt (wp_outcome (wp_log holds current describes.auditLog ?_)))
  · rintro _ s₁ holds₁ ⟨⟨_, content, mode, ends⟩, logged⟩
    have inside := Logged.inside proper logged.tree
    have current₁ := logged.current current
    have commit : CommitLogged env t.toPlan s₁.tree :=
      ⟨_, content, mode, describes.id, rfl, ends⟩
    have committed : Journaled env t s₁ { journal with phase := .committed } :=
      ⟨describes.phase _, underway.backed.frame inside, nofun,
        fun _ => new.frame inside (Logged.targets proper logged.tree)⟩
    have frame {n : Option (Node C)} {s₂ : World C}
        (swapped : Swapped (activeJournal stateDir) n s₁ s₂) :
        AllNew env t.toPlan s₂.tree ∧ CommitLogged env t.toPlan s₂.tree :=
      ⟨(committed.committed rfl).frame (swapped.inside holds₁ current₁)
        (swapped.targets holds₁ current₁), commit.swapped proper swapped⟩
    apply wp_try (wp_adapt (wp_outcome (wp_writeJournal holds₁ current₁ committed)))
    · rintro _ s₂ holds₂ ⟨_, swapped⟩
      obtain ⟨new₂, commit₂⟩ := frame swapped
      have current₂ := swapped.stays.current current₁
      have cleared {s₃ : World C} (swapped₃ : Swapped (activeJournal stateDir) none s₂ s₃) :
          s₃.current = some t ∧ AllNew env t.toPlan s₃.tree :=
        ⟨swapped₃.stays.current current₂,
          new₂.frame (swapped₃.inside holds₂ current₂) (swapped₃.targets holds₂ current₂)⟩
      apply wp_adapts (wp_clearJournal holds₂ current₂ (.inr new₂))
      · rintro _ s₃ ⟨removed, swapped₃⟩
        refine ⟨(cleared swapped₃).1, (cleared swapped₃).2, ?_⟩
        rw [proper.stateDir]
        exact removed
      · rintro e _ s₃ ⟨_, swapped₃⟩
        exact ⟨(cleared swapped₃).1, .inr (.inr
          ⟨(cleared swapped₃).2, commit₂.swapped proper swapped₃⟩)⟩
    · rintro e s₂ _ ⟨_, swapped⟩
      exact ⟨swapped.stays.current current₁, .inr (.inr (frame swapped))⟩
  · -- without the record the journal is kept
    rintro e s₁ _ ⟨_, logged⟩
    refine ⟨logged.current current, .inl ?_⟩
    rw [proper.stateDir, Logged.journal proper logged.tree]
    exact there
  · intro watched
    refine ⟨describes.id, fun _ _ => ⟨new, describes.hashes, ?_⟩, nofun⟩
    intro undone
    rw [(holds.2 watched).undone t current undone] at started
    cases started

/-- The targets are old again, or the journal stays for a recovery. -/
theorem wp_abandonUpgrade {applyErr : String} (describes : Describes env t.toPlan journal)
    (underway : Underway env t journal s)
    (unrecorded : strict → ¬ Recorded s t.id AuditStatus.commits) :
    Maintains env admits stateDir strict
      (abandonUpgrade env (activeJournal stateDir) journal applyErr).run (Ended env t) s := by
  have proper := (holds.1.current t current).1
  apply wp_lift (wp_rollbackUpgrade holds current underway.opened underway.backed)
  rintro rolledBack s₁ holds₁ ⟨⟨opened, worked, _⟩, restored⟩
  have current₁ := worked.current current
  apply wp_ask_calm rfl holds₁
  intro endedAt
  cases rolledBack with
  | error e =>
    apply wp_lift (wp_log holds₁ current₁ describes.auditLog
      fun _ => .neutral describes.id rfl rfl)
    rintro audited s₂ _ ⟨_, logged⟩
    apply wp_throw
    refine ⟨logged.current current₁, .inl ?_⟩
    obtain ⟨j, ⟨mode, there⟩, _⟩ := opened
    rw [proper.stateDir] at there ⊢
    rw [Logged.journal proper logged.tree, there]
    simp
  | ok _ =>
    have old := restored rfl
    apply wp_lift (wp_log holds₁ current₁ describes.auditLog ?_)
    · rintro audited s₂ holds₂ ⟨_, logged⟩
      have old₂ := old.frame (Logged.targets proper logged.tree)
      have current₂ := logged.current current₁
      apply wp_lift (wp_clearJournal holds₂ current₂ (.inl old₂))
      rintro cleared s₃ _ ⟨_, swapped⟩
      have old₃ := old₂.frame (swapped.targets holds₂ current₂)
      have current₃ := swapped.stays.current current₂
      cases cleared with
      | ok | error => exact wp_throw ⟨current₃, .inr (.inl old₃)⟩
    · intro watched
      refine ⟨describes.id, nofun, fun _ => ⟨worked.undone, ?_⟩⟩
      rintro ⟨e, mem, same, commits⟩
      rw [worked.audits] at mem
      exact unrecorded watched ⟨e, mem, same, commits⟩

theorem wp_rejectUpgrade {hashes : List (FilePath × String)} {err : String} (id : journal.id = t.id)
    (log : auditPath env journal.auditLog = t.auditLog) (old : AllOld env t s.tree) :
    Maintains env admits stateDir strict
      (rejectUpgrade env journal hashes err).run (Ended env t) s := by
  have proper := (holds.1.current t current).1
  apply wp_ask_calm rfl holds
  intro endedAt
  apply wp_lift (wp_log holds current log fun _ => .neutral id rfl rfl)
  rintro audited s₁ _ ⟨_, logged⟩
  exact wp_throw ⟨logged.current current,
    .inr (.inl (old.frame (Logged.targets proper logged.tree)))⟩

end

/-! ### The whole transaction -/

/-- A transaction that has begun and not yet touched a target. -/
structure Begun (env : Env C) (stateDir : Path) (strict : Prop) (t : Transaction C) (s : World C) : Prop where
  current : s.current = some t
  started : s.undone = false
  unrecorded : strict → ¬ Recorded s t.id AuditStatus.commits
  targets : t.SameTargets env t.originals s.tree
  absent : s.tree.node (activeJournal stateDir) = none

theorem Begun.old (begun : Begun env stateDir strict t s) : AllOld env t s.tree := by
  intro a mem
  rw [Restored, begun.targets a mem]

theorem Begun.within {sub : String} (proper : t.Proper env stateDir) (begun : Begun env stateDir strict t s)
    (within : Within (sub :: t.dir) s s') : Begun env stateDir strict t s' where
  current := within.current begun.current
  started := within.undone.trans begun.started
  unrecorded watched := by
    rw [Recorded, within.audits]
    exact begun.unrecorded watched
  targets a mem := (Within.targets proper within a mem).trans (begun.targets a mem)
  absent := (Within.journal proper within).trans begun.absent

/-- The backup phase leaves the staged copies alone. -/
theorem Within.staged {dir : Path} {i : Nat} {a : UpgradeArtifact}
    (within : Within ("backup" :: dir) s s') (copy : StagedCopy env dir s.tree i a) :
    StagedCopy env dir s'.tree i a := by
  refine copy.keep fun n => (within.tree _ fun below => ?_).trans
  rcases suffix_cons_iff.mp below with same | higher
  · have lengths := congrArg length same
    simp at lengths
  · have same := higher.eq_of_length (by simp)
    simp at same

/-- The journal that is drawn up for the transaction. -/
structure Drafted (env : Env C) (t : Plan) (journal : UpgradeJournal) : Prop where
  id : journal.id = t.id
  artifacts : journal.artifacts = t.artifacts
  auditLog : auditPath env journal.auditLog = t.auditLog
  transaction : journal.transaction ≠ none

section

variable (holds : Holds env stateDir strict s) (begun : Begun env stateDir strict t s)

include holds begun

/-- From the complete journal on. -/
theorem wp_prepared (describes : Describes env t.toPlan journal)
    (backed : Backed env t s.tree journal.backups) (prepared : journal.phase = .prepared)
    (copies : AllStaged env t.toPlan s.tree) :
    Maintains env admits stateDir strict
      (do
        wrap "persist prepared upgrade journal"
          (writeJSONAtomic env (activeJournal stateDir) journal 0o600)
        match ← attempt (switchUpgrade env (activeJournal stateDir) journal
          (stagedPairs t.dir 0 t.artifacts)) with
        | .ok () => commitUpgrade env (activeJournal stateDir) journal
        | .error applyErr => abandonUpgrade env (activeJournal stateDir) journal applyErr).run
      (Ended env t) s := by
  have current := begun.current
  have proper := (holds.1.current t current).1
  have journaled : Journaled env t s journal := by
    refine ⟨describes, backed, ?_, ?_⟩ <;> simp [prepared]
  apply wp_try (wp_adapt (wp_outcome (wp_writeJournal holds current journaled)))
  · rintro _ s₁ holds₁ ⟨written, swapped⟩
    have worked₁ := Worked.of_swapped holds current swapped
    have current₁ := worked₁.current current
    have backed₁ := backed.frame worked₁.tree
    have opened₁ : Opened env t s₁ := by
      refine ⟨journal, ⟨0o600, ?_⟩, describes, backed₁, ?_, ?_⟩
      · rw [proper.stateDir]
        exact written
      all_goals simp [prepared]
    apply wp_lift (wp_switchUpgrade holds₁ current₁ describes backed₁ opened₁
      (copies.frame worked₁.tree))
    intro switched s₂ holds₂ established
    cases switched with
    | ok _ =>
      obtain ⟨⟨underway, worked₂⟩, new⟩ := established
      have worked := worked₁.trans worked₂
      exact wp_commitUpgrade holds₂ (worked.current current) describes underway new
        (worked.undone.trans begun.started)
    | error applyErr =>
      obtain ⟨underway, worked₂⟩ := established
      have worked := worked₁.trans worked₂
      have unrecorded : strict → ¬ Recorded s₂ t.id AuditStatus.commits := by
        intro watched
        rw [Recorded, worked.audits]
        exact begun.unrecorded watched
      exact wp_abandonUpgrade holds₂ (worked.current current) describes underway unrecorded
  · -- the rename may have happened, but no target was touched
    rintro e s₁ _ ⟨_, swapped⟩
    exact ⟨swapped.stays.current current,
      .inr (.inl (begun.old.frame (swapped.targets holds current)))⟩

/-- Staging and backups come first; their failure is recorded and changes no target. -/
theorem wp_runTransaction {manifestDir : Path} (drafted : Drafted env t.toPlan journal)
    (artifacts : manifest.artifacts = t.artifacts) :
    Maintains env admits stateDir strict
      (runTransaction env manifest manifestDir stateDir journal).run (Ended env t) s := by
  have proper := (holds.1.current t begun.current).1
  have dir : journal.id :: stateDir = t.dir := by rw [drafted.id, proper.dir_eq]
  have rejected {hashes : List (FilePath × String)} {err : String} {s₁ : World C}
      (holds₁ : Holds env stateDir strict s₁) (begun₁ : Begun env stateDir strict t s₁) :
      Maintains env admits stateDir strict
        (rejectUpgrade env journal hashes err).run (Ended env t) s₁ :=
    wp_rejectUpgrade holds₁ begun₁.current drafted.id drafted.auditLog begun₁.old
  unfold runTransaction
  dsimp only
  rw [dir]
  apply wp_lift (wp_steps stageAndCheck_inside stageAndCheck_spec Within.exec fun s₁ within =>
    holds.within begun.current begun.absent begun.old within)
  rintro staging s₁ holds₁ ⟨staged, within₁⟩
  have begun₁ := begun.within proper within₁
  match staging with
  | .error err => exact rejected holds₁ begun₁
  | .ok (paths, hashes) =>
    obtain ⟨pairs, sums, copies⟩ := staged
    rw [artifacts] at pairs sums copies ⊢
    apply wp_lift (wp_steps backupUpgradeTargets_inside
      (backupUpgradeTargets_spec proper begun₁.targets) Within.exec fun s₂ within =>
        holds₁.within begun₁.current begun₁.absent begun₁.old within)
    rintro backing s₂ holds₂ ⟨backed, within₂⟩
    have begun₂ := begun₁.within proper within₂
    match backing with
    | .error err => exact rejected holds₂ begun₂
    | .ok backups =>
      dsimp only
      rw [pairs]
      have copies₂ : AllStaged env t.toPlan s₂.tree :=
        fun i a found => within₂.staged (copies i a found)
      exact wp_prepared holds₂ begun₂
        ⟨drafted.id, drafted.artifacts, sums, drafted.auditLog, drafted.transaction⟩ backed rfl copies₂

end

/-! ### The beginning of a transaction -/

section Begin

variable {plan : Plan} (proper : plan.Proper env stateDir)
  (holds : Holds env stateDir strict s) (absent : s.tree.node (activeJournal stateDir) = none)

include proper

theorem FileTree.Replaces.targets {tree tree' : FileTree C} (replaces : tree.Replaces plan.dir tree') :
    plan.SameTargets env tree tree' := by
  intro a mem
  apply replaces
  intro same
  apply proper.target_outside mem
  rw [same, proper.dir_eq]
  exact suffix_cons _ _

include holds absent

/-- The directory is new, so no earlier transaction has this name. -/
theorem Holds.begin (done : s.effect env (.begin plan) = .ok s') :
    Holds env stateDir strict s' ∧ Begun env stateDir strict ⟨plan, s.tree⟩ s' := by
  obtain ⟨tree, made, same⟩ := bind_ok done
  cases same
  obtain ⟨missing, there, replaces⟩ := FileTree.mkdir_ok made
  have targets := FileTree.Replaces.targets proper replaces
  -- `Mkdir` fails on a name that is taken
  have unknown : ∀ t ∈ s.begun, t.id ≠ plan.id := by
    intro t mem same
    obtain ⟨root, _, exists_⟩ := holds.1.dirs t mem
    rw [Plan.dir, root, same, ← proper.dir_eq] at exists_
    exact exists_ missing
  have unrecorded (kind : AuditStatus → Bool) (watched : strict) : ¬ Recorded s plan.id kind := by
    rintro ⟨e, mem, same, _⟩
    obtain ⟨t, begun, known⟩ := (holds.2 watched).known e mem
    exact unknown t begun (known.trans same)
  have journal : tree.node (activeJournal stateDir) = none := by
    rw [replaces, absent]
    intro same
    apply proper.journal_outside
    rw [same]
  have begun : Begun env stateDir strict ⟨plan, s.tree⟩ { s with
      tree, begun := ⟨plan, s.tree⟩ :: s.begun, undone := false } :=
    ⟨rfl, rfl, unrecorded _, targets, journal⟩
  refine ⟨⟨⟨?_, ?_, ?_⟩, ?_⟩, begun⟩
  · intro t mem
    rcases mem_cons.mp mem with rfl | earlier
    · refine ⟨proper.stateDir, proper.named, ?_⟩
      rw [there]
      simp
    · obtain ⟨root, named, exists_⟩ := holds.1.dirs t earlier
      refine ⟨root, named, ?_⟩
      rwa [replaces]
      intro same
      rw [same] at exists_
      exact exists_ missing
  · rw [map_cons, nodup_cons]
    refine ⟨?_, holds.1.unique⟩
    intro twice
    obtain ⟨t, mem, same⟩ := mem_map.mp twice
    exact unknown t mem same
  · intro t current
    cases current
    refine ⟨proper, .inl ⟨?_, .inl begun.old⟩⟩
    rw [proper.stateDir]
    exact journal
  · intro watched
    have truthful := holds.2 watched
    constructor
    · intro e mem
      obtain ⟨t, earlier, known⟩ := truthful.known e mem
      exact ⟨t, mem_cons_of_mem _ earlier, known⟩
    · intro e mem commits
      obtain ⟨t, earlier, rest⟩ := truthful.commits e mem commits
      exact ⟨t, mem_cons_of_mem _ earlier, rest⟩
    · exact truthful.exclusive
    · intro t current record
      cases current
      exact absurd record (unrecorded _ watched)
    · intro none
      cases none

theorem wp_begin :
    Maintains env admits stateDir strict (act (.begin plan)).run
      (outcome (fun _ s' => Begun env stateDir strict ⟨plan, s.tree⟩ s')
        fun s' => plan.SameTargets env s.tree s'.tree) s := by
  apply wp_map
  apply wp_last
  intro fate result s' _ done
  -- a torn creation has done nothing
  rcases perform_cases (Option.some.inj done) with ⟨rfl, failed⟩ | whole | ⟨⟨⟩, failed⟩
  case inr.inl =>
    obtain ⟨holds', begun⟩ := holds.begin proper absent whole
    refine ⟨holds', ?_⟩
    cases result with
    | ok _ => exact begun
    | error e => exact begun.targets
  all_goals
    refine ⟨holds, ?_⟩
    cases result with
    | ok _ => exact absurd rfl failed
    | error e => exact fun _ _ => rfl

end Begin

/-- The transaction of a manifest. -/
def UpgradeManifest.plan (env : Env C) (manifest : UpgradeManifest) (id : String) : Plan where
  id := id
  stateDir := manifest.statePath env
  artifacts := manifest.artifacts
  auditLog := auditPath env manifest.auditLogOrDefault

/-- An accepted manifest for the state directory, whose places do not meet. -/
structure Suitable (env : Env C) (stateDir : Path) (manifest : UpgradeManifest) : Prop where
  accepted : Accepted env.validateLoopbackAddress manifest
  stateDir : manifest.statePath env = stateDir
  apart : (manifest.plan env "").Apart env

theorem Suitable.proper (suitable : Suitable env stateDir manifest) {id : String} (named : Named id) :
    (manifest.plan env id).Proper env stateDir where
  stateDir := suitable.stateDir
  named := named
  artifacts := by
    obtain ⟨raw, accepted⟩ := suitable.accepted
    exact validateUpgradeManifest_ok accepted
  apart := ⟨suitable.apart.targets, suitable.apart.links, suitable.apart.log,
    suitable.apart.journal, suitable.apart.audit⟩

section Execute

variable {manifest : UpgradeManifest} {manifestDir : Path} (suitable : Suitable env stateDir manifest)

include suitable

section

variable (holds : Holds env stateDir strict s)

include holds

/-- The transaction starts in a state without a journal; it may also not come to that. -/
theorem wp_startTransaction (absent : s.tree.node (activeJournal stateDir) = none) :
    Maintains env admits stateDir strict
      (startTransaction env manifest manifestDir stateDir manifest.auditLogOrDefault).run
      (fun result s' => (∃ t : Transaction C, t.originals = s.tree ∧
          (∃ id, t.toPlan = manifest.plan env id) ∧ Ended env t result s') ∨
        result ≠ .ok () ∧ ∀ a ∈ manifest.artifacts, s'.tree.node (a.place env) = s.tree.node (a.place env)) s := by
  have stateDir_eq := suitable.stateDir
  subst stateDir_eq
  apply wp_ask_calm rfl holds
  intro startedAt
  apply wp_ask_calm rfl holds
  intro pid
  have proper := suitable.proper ⟨startedAt, pid, rfl⟩
  apply wp_try (wp_adapt (wp_begin proper holds absent))
  · intro _ s₁ holds₁ begun
    apply wp_mono _ (wp_runTransaction holds₁ begun ⟨rfl, rfl, rfl, by simp⟩ rfl)
    intro result s₂ _ ended
    exact .inl ⟨_, rfl, ⟨_, rfl⟩, ended⟩
  · intro e s₁ _ targets
    exact .inr ⟨by simp, targets⟩

/-- An execution from what its recovery does. -/
theorem wp_executeManifest {mid bad : World C → Prop} {post : Except String Unit → World C → Prop}
    (locked : ∀ e s₁, Stays ("upgrade.lock" :: stateDir) s s₁ → post (.error e) s₁)
    (recovers : ∀ s₁, Stays ("upgrade.lock" :: stateDir) s s₁ → Holds env stateDir strict s₁ →
      Maintains env admits stateDir strict
        (recoverInterruptedUpgrade env (activeJournal stateDir)).run (outcome (fun _ => mid) bad) s₁)
    (failed : ∀ e s₁, bad s₁ → post (.error e) s₁)
    (starts : ∀ s₁, Holds env stateDir strict s₁ → mid s₁ →
      Maintains env admits stateDir strict
        (startTransaction env manifest manifestDir stateDir manifest.auditLogOrDefault).run post s₁) :
    Maintains env admits stateDir strict (executeManifest env manifest manifestDir).run post s := by
  have stateDir_eq := suitable.stateDir
  subst stateDir_eq
  -- the calls up to the lock touch nothing but its path
  have locking {s₁ : World C} {p : Fallible C Unit} (holds₁ : Holds env _ strict s₁)
      (touches : p.run.Only (Op.Touches ("upgrade.lock" :: manifest.statePath env))) :
      Maintains env admits _ strict p.run
        (outcome (fun _ s₂ => Stays ("upgrade.lock" :: manifest.statePath env) s₁ s₂)
          fun s₂ => Stays ("upgrade.lock" :: manifest.statePath env) s₁ s₂) s₁ :=
    wp_always (wp_mono (fun _ _ _ both => both.2)
      (wp_steps touches wp_trivial Stays.exec fun _ stays => holds₁.lock stays))
  apply wp_try (locking holds (wrap_only (act_only (.inr rfl))))
  · intro _ s₁ holds₁ stays₁
    apply wp_try (locking holds₁ ?_)
    · intro _ s₂ holds₂ stays₂
      apply wp_try (wp_adapt (recovers s₂ (stays₁.trans stays₂) holds₂))
      · grind
      · intro e s₃ _ stopped
        exact failed e s₃ stopped
    · intro e s₂ _ stays₂
      exact locked e s₂ (stays₁.trans stays₂)
    · apply only_try (wrap_only (act_only (.inl (.inr ⟨_, rfl, rfl⟩))))
      intro _
      exact wrap_only (fileCall_only fun _ calm => .inl (.inl calm))
  · intro e s₁ _ stays₁
    exact locked e s₁ stays₁

/-- At every crash of an upgrade the invariant holds. -/
theorem executeManifest_keeps :
    Maintains env (Admits strict) stateDir strict
      (executeManifest env manifest manifestDir).run (fun _ _ => True) s := by
  apply wp_executeManifest suitable holds
  · intros
    trivial
  · intro s₁ _ holds₁
    exact wp_recoverInterruptedUpgrade holds₁
  · intros
    trivial
  · intro s₁ holds₁ absent
    exact wp_mono (fun _ _ _ _ => trivial) (wp_startTransaction suitable holds₁ absent)

end

end Execute

end TrojanGo.Upgrade
