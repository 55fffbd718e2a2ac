import TrojanGo.Upgrade.Records

/-!
# The phases of a transaction

Staging and backups work below the transaction directory; the switch and the rollback on one
target after the other.
-/
namespace TrojanGo.Upgrade

open Lib Prog List

variable {C : Type} {env : Env C} {admits : World C → Op C → Prop} {s s' : World C}

/-! ### Staging -/

variable {i : Nat} {a : UpgradeArtifact} {artifacts : List UpgradeArtifact}

section Staging

variable {dir manifestDir : Path}

/-- The staged copy has the digest of the manifest. -/
def StagedCopy (env : Env C) (dir : Path) (tree : FileTree C) (i : Nat) (a : UpgradeArtifact) :
    Prop :=
  ∃ content mode, tree.node (stagedPath dir i) = some (.file content mode) ∧
    env.sha256 content = a.sha256

def AllStaged (env : Env C) (plan : Plan) (tree : FileTree C) : Prop :=
  ∀ i a, plan.artifacts[i]? = some a → StagedCopy env plan.dir tree i a

theorem validateStagedConfig_calm {path : Path} {target : FilePath} :
    (validateStagedConfig env path target).run.Only fun op => op.calm = true := by
  unfold validateStagedConfig
  dsimp only
  split
  · trivial
  · apply only_try (wrap_only (readFile_only fun _ => id))
    intro data
    split
    · trivial
    · grind

/-- A staged artifact has its digest; nothing that existed is lost. -/
theorem stageArtifact_spec :
    Ensures (exec env) admits (stageArtifact env dir manifestDir i a) (fun staged s' =>
      staged = (stagedPath dir i, a.target, a.sha256) ∧ StagedCopy env dir s'.tree i a ∧
        s.tree.Grows s'.tree) s := by
  apply ensures_bind lstat_spec
  rintro found s₁ ⟨same, _, _⟩
  subst same
  match found with
  | .error e => exact ensures_throw
  | .ok .dir => exact ensures_throw
  | .ok .other => exact ensures_throw
  | .ok (.file _ _) =>
    apply ensures_bind (wrap_spec copyFileSync_grows)
    rintro _ s₂ ⟨⟨content, _, mode, _, placed⟩, grows⟩
    apply ensures_bind fileSHA256_spec
    rintro digest s₃ ⟨same, content', mode', found, sum⟩
    subst same
    dsimp only
    -- a copy with another digest is refused
    split
    · exact ensures_throw
    next equal =>
      have equal : digest = a.sha256 := not_not.mp equal
      apply ensures_bind (calm_spec validateStagedConfig_calm)
      intro _ s₄ same
      subst same
      have staged : StagedCopy env dir s₄.tree i a := ⟨content', mode', found, sum ▸ equal⟩
      split
      · apply ensures_bind (wrap_spec (idle_spec rfl))
        intro _ s₅ same
        subst same
        exact ensures_pure ⟨by rw [equal], staged, grows⟩
      · exact ensures_pure ⟨by rw [equal], staged, grows⟩

theorem StagedCopy.keep {tree tree' : FileTree C} (staged : StagedCopy env dir tree i a)
    (kept : ∀ n, tree.node (stagedPath dir i) = some n → tree'.node (stagedPath dir i) = some n) :
    StagedCopy env dir tree' i a := by
  obtain ⟨content, mode, found, sum⟩ := staged
  exact ⟨content, mode, kept _ found, sum⟩

/-- The staged paths with the targets and digests, from number `i` on. -/
def stagedList (dir : Path) (i : Nat) (artifacts : List UpgradeArtifact) :
    List (Path × FilePath × String) :=
  (artifacts.zipIdx i).map fun (a, k) => (stagedPath dir k, a.target, a.sha256)

-- By induction on the artifacts: an earlier copy exists when a later one is created.
theorem stageArtifacts_spec :
    Ensures (exec env) admits (stageArtifacts env dir manifestDir i artifacts) (fun staged s' =>
      staged = stagedList dir i artifacts ∧
        (∀ k a, artifacts[k]? = some a → StagedCopy env dir s'.tree (i + k) a) ∧
        s.tree.Grows s'.tree) s := by
  induction artifacts generalizing i s with
  | nil => exact ensures_pure ⟨rfl, by simp, .refl _⟩
  | cons a artifacts ih =>
    apply ensures_bind stageArtifact_spec
    rintro _ s₁ ⟨rfl, first, grows₁⟩
    apply ensures_bind ih
    rintro _ s₂ ⟨rfl, others, grows₂⟩
    refine ensures_pure ⟨rfl, ?_, grows₁.trans grows₂⟩
    intro k a' found
    cases k with
    | zero =>
      cases found
      exact first.keep (grows₂ _)
    | succ k => grind

theorem unzip_stagedList (i : Nat) (artifacts : List UpgradeArtifact) :
    (stagedList dir i artifacts).unzip =
      ((artifacts.zipIdx i).map fun (_, k) => stagedPath dir k, hashesOf artifacts) := by
  induction artifacts generalizing i with
  | nil => rfl
  | cons a artifacts ih =>
    have rest := ih (i + 1)
    simp only [stagedList, hashesOf, zipIdx_cons, map_cons, unzip_cons] at rest ⊢
    rw [rest]

/-- Each artifact with its staged copy. -/
def stagedPairs (dir : Path) (i : Nat) (artifacts : List UpgradeArtifact) :
    List (UpgradeArtifact × Path) :=
  (artifacts.zipIdx i).map fun (a, k) => (a, stagedPath dir k)

theorem zip_staged (i : Nat) (artifacts : List UpgradeArtifact) :
    artifacts.zip ((artifacts.zipIdx i).map fun (_, k) => stagedPath dir k) =
      stagedPairs dir i artifacts := by
  induction artifacts generalizing i with
  | nil => rfl
  | cons a artifacts ih => grind [stagedPairs]

theorem runUpgradeConfigChecks_calm {staged : List (UpgradeArtifact × Path)}
    {checks : List UpgradeConfigCheck} :
    (runUpgradeConfigChecks staged checks : Fallible C Unit).run.Only fun op =>
      op.calm = true := by
  induction checks with
  | nil => trivial
  | cons check checks ih => exact only_try (wrap_only (host_only fun _ => id)) fun _ => ih

theorem stageUpgradeArtifacts_spec :
    Ensures (exec env) admits (stageUpgradeArtifacts env dir manifestDir artifacts)
      (fun staged s' => staged.1 = ((artifacts.zipIdx 0).map fun (_, k) => stagedPath dir k) ∧
        staged.2 = hashesOf artifacts ∧
        ∀ i a, artifacts[i]? = some a → StagedCopy env dir s'.tree i a) s := by
  apply ensures_bind (wrap_spec act_spec)
  intro _ s₁ _
  apply ensures_bind stageArtifacts_spec
  rintro _ s₂ ⟨rfl, copies, _⟩
  apply ensures_bind (calm_spec (wrap_only (syncDirectoryPath_only fun _ => id)))
  intro _ s₃ same
  subst same
  apply ensures_pure
  rw [unzip_stagedList]
  refine ⟨rfl, rfl, ?_⟩
  intro i a found
  have copy := copies i a found
  rwa [Nat.zero_add] at copy

variable {manifest : UpgradeManifest}

theorem stageAndCheck_spec :
    Ensures (exec env) admits (stageAndCheck env manifest manifestDir dir) (fun staged s' =>
      manifest.artifacts.zip staged.1 = stagedPairs dir 0 manifest.artifacts ∧
        staged.2 = hashesOf manifest.artifacts ∧
        ∀ i a, manifest.artifacts[i]? = some a → StagedCopy env dir s'.tree i a) s := by
  apply ensures_bind stageUpgradeArtifacts_spec
  rintro ⟨staged, hashes⟩ s₁ ⟨paths, sums, copies⟩
  apply ensures_bind (calm_spec runUpgradeConfigChecks_calm)
  intro _ s₂ same
  subst same
  refine ensures_pure ⟨?_, sums, copies⟩
  rw [show staged = _ from paths]
  exact zip_staged 0 manifest.artifacts

theorem stageAndCheck_inside :
    (stageAndCheck env manifest manifestDir dir).run.Only (Op.Inside ("staging" :: dir)) := by
  have calm (op : Op C) (calm : op.calm = true) : op.Inside ("staging" :: dir) :=
    ⟨_, .inl calm, suffix_rfl⟩
  have files {path : Path} (below : "staging" :: dir <:+ path) (a : Act C)
      (target : a.target = some path) : (Op.act a).Inside ("staging" :: dir) :=
    ⟨path, .inr ⟨a, rfl, target⟩, below⟩
  apply only_try
  · apply only_try (wrap_only (act_only (files suffix_rfl _ rfl)))
    intro _
    apply only_try
    · generalize 0 = i
      induction manifest.artifacts generalizing i with
      | nil => trivial
      | cons a artifacts ih =>
        apply only_try
        · apply only_try (ask_only (calm _ rfl))
          intro found
          match found with
          | .error e => trivial
          | .ok .dir => trivial
          | .ok .other => trivial
          | .ok (.file _ _) =>
            apply only_try (wrap_only (copyFileSync_only calm (files (suffix_cons _ _))))
            intro _
            apply only_try
            · apply only_try (readFile_only calm)
              intro _
              trivial
            · intro digest
              dsimp only
              split
              · trivial
              · apply only_try (validateStagedConfig_calm.mono calm)
                intro _
                split
                · exact only_try (wrap_only (host_only calm)) fun _ => trivial
                · trivial
        · intro _
          apply only_try (ih (i + 1))
          intro _
          trivial
    · grind
  · rintro ⟨staged, hashes⟩
    exact only_try (runUpgradeConfigChecks_calm.mono calm) fun _ => trivial

end Staging

/-! ### Backups -/

variable {b : UpgradeBackup}

section Backups

variable {t : Transaction C} {stateDir : Path}

/-- A target that exists is copied; a missing one is noted as such. -/
theorem backupTarget_spec (original : s.tree.node (a.place env) = t.originals.node (a.place env)) :
    Ensures (exec env) admits (backupTarget env t.dir i a) (fun b s' =>
      BackedUp env t s'.tree b a ∧ s.tree.Grows s'.tree) s := by
  apply ensures_bind lstat_spec
  rintro found s₁ ⟨same, there, missing⟩
  subst same
  match found with
  | .error e =>
    dsimp only
    split
    next absent =>
      refine ensures_pure ⟨⟨rfl, .inr ⟨rfl, ?_⟩⟩, .refl _⟩
      rw [← original]
      exact missing e rfl absent
    · exact ensures_throw
  | .ok .dir => exact ensures_throw
  | .ok .other => exact ensures_throw
  | .ok (.file content mode) =>
    have before := there _ rfl
    apply ensures_bind (wrap_spec copyFileSync_grows)
    rintro _ s₂ ⟨⟨content', mode', mode'', found, placed⟩, grows⟩
    rw [before] at found
    cases found
    refine ensures_pure ⟨⟨rfl, .inl ⟨rfl, content, mode, mode'', ?_, rfl, ?_, placed⟩⟩, grows⟩
    · rw [← original, before]
    · exact suffix_cons "backup" t.dir

theorem backupTarget_inside {dir : Path} :
    (backupTarget env dir i a : Fallible C UpgradeBackup).run.Only (Op.Inside ("backup" :: dir)) := by
  have calm (op : Op C) (calm : op.calm = true) : op.Inside ("backup" :: dir) :=
    ⟨_, .inl calm, suffix_rfl⟩
  apply only_try (ask_only (calm _ rfl))
  intro found
  match found with
  | .error e =>
    dsimp only
    split <;> trivial
  | .ok .dir => trivial
  | .ok .other => trivial
  | .ok (.file _ _) =>
    apply only_try (wrap_only (copyFileSync_only calm fun a target =>
      ⟨_, .inr ⟨a, rfl, target⟩, suffix_cons _ _⟩))
    intro _
    trivial

theorem backupUpgradeTargets_inside {dir : Path} :
    (backupUpgradeTargets env dir artifacts : Fallible C (List UpgradeBackup)).run.Only
      (Op.Inside ("backup" :: dir)) := by
  have calm (op : Op C) (calm : op.calm = true) : op.Inside ("backup" :: dir) :=
    ⟨_, .inl calm, suffix_rfl⟩
  apply only_try (wrap_only (act_only ⟨_, .inr ⟨_, rfl, rfl⟩, suffix_rfl⟩))
  intro _
  apply only_try
  · generalize 0 = i
    induction artifacts generalizing i with
    | nil => trivial
    | cons a artifacts ih =>
      apply only_try backupTarget_inside
      intro _
      apply only_try (ih (i + 1))
      intro _
      trivial
  · grind

theorem ensures_within {α : Type} {p : Fallible C α} {good : α → World C → Prop} {root : Path}
    (only : p.run.Only (Op.Inside root)) (spec : Ensures (exec env) admits p good s) :
    Ensures (exec env) admits p (fun v s' => good v s' ∧ Within root s s') s :=
  ensures_with (wp_steps only spec Within.exec fun _ _ => trivial)

-- By induction on the targets: a backup exists when a later one is created, and no backup
-- touches a target.
theorem backupTargets_spec (proper : t.Proper env stateDir) (members : ∀ a ∈ artifacts, a ∈ t.artifacts)
    (originals : t.SameTargets env t.originals s.tree) :
    Ensures (exec env) admits (backupTargets env t.dir i artifacts) (fun backups s' =>
      List.Forall₂ (BackedUp env t s'.tree) backups artifacts ∧ s.tree.Grows s'.tree) s := by
  induction artifacts generalizing i s with
  | nil => exact ensures_pure ⟨.nil, .refl _⟩
  | cons a artifacts ih =>
    have mem := members a mem_cons_self
    apply ensures_bind (ensures_within backupTarget_inside (backupTarget_spec (originals a mem)))
    rintro b s₁ ⟨⟨backed, grows₁⟩, within⟩
    have kept := Within.targets proper within
    apply ensures_bind (ih (fun a' rest => members a' (mem_cons_of_mem a rest))
      fun a' mem' => (kept a' mem').trans (originals a' mem'))
    rintro backups s₂ ⟨others, grows₂⟩
    exact ensures_pure ⟨.cons (backed.keep fun n _ => grows₂ _ n) others, grows₁.trans grows₂⟩

theorem backupUpgradeTargets_spec (proper : t.Proper env stateDir)
    (originals : t.SameTargets env t.originals s.tree) :
    Ensures (exec env) admits (backupUpgradeTargets env t.dir t.artifacts)
      (fun backups s' => Backed env t s'.tree backups) s := by
  have made : (wrap "create backup directory" (act (.mkdir ("backup" :: t.dir))) :
      Fallible C Unit).run.Only (Op.Inside ("backup" :: t.dir)) :=
    wrap_only (act_only ⟨_, .inr ⟨_, rfl, rfl⟩, suffix_rfl⟩)
  apply ensures_bind (ensures_within made ensures_trivial)
  rintro _ s₁ ⟨_, within⟩
  have kept := Within.targets proper within
  apply ensures_bind (backupTargets_spec proper (fun _ => id)
    fun a mem => (kept a mem).trans (originals a mem))
  rintro backups s₂ ⟨backed, _⟩
  apply ensures_bind (calm_spec (wrap_only (syncDirectoryPath_only fun _ => id)))
  intro _ s₃ same
  subst same
  exact ensures_pure backed

end Backups

section Targets

variable {t : Transaction C} {stateDir : Path} {strict : Prop}

instance (plan : Plan) : IsPreorder (FileTree C) plan.SameInside where
  refl _ _ _ := rfl
  trans _ _ _ first second q below := (second q below).trans (first q below)

/-- Work on targets: the books and the transaction directory are left alone. -/
abbrev Worked (t : Transaction C) : World C → World C → Prop := Keeps t.SameInside

theorem Worked.of_stays (proper : t.Proper env stateDir) (mem : a ∈ t.artifacts)
    (stays : Stays (a.place env) s s') : Worked t s s' :=
  stays.mono fun _ => Stays.target_inside proper mem stays

/-! ### The switch -/

/-- The targets of the pairs are copies of the staged files. -/
def Installed (env : Env C) (pairs : List (UpgradeArtifact × Path)) (tree : FileTree C) : Prop :=
  ∀ pair ∈ pairs, ∃ content mode, tree.node pair.2 = some (.file content mode) ∧
    tree.node (pair.1.place env) = some (.file content pair.1.fileMode)

-- By induction on the pairs: an installed target keeps its file, because the later targets are
-- other files and directories only appear where nothing was.
theorem wp_applyUpgrade {pairs : List (UpgradeArtifact × Path)}
    (members : ∀ pair ∈ pairs, pair.1 ∈ t.artifacts ∧ t.dir <:+ pair.2.tail)
    (distinct : (pairs.map fun pair => pair.1.place env).Nodup)
    (holds : Holds env stateDir strict s) (current : s.current = some t)
    (opened : Opened env t s) :
    Maintains env admits stateDir strict (applyUpgrade env pairs).run
      (outcome (fun _ s' => (Opened env t s' ∧ Worked t s s') ∧ Installed env pairs s'.tree ∧
          ∀ q n, q ∉ pairs.map (fun pair => pair.1.place env) → s.tree.node q = some n →
            s'.tree.node q = some n)
        fun s' => Opened env t s' ∧ Worked t s s') s := by
  induction pairs generalizing s with
  | nil =>
    apply wp_success
    exact ⟨⟨opened, .refl s⟩, by simp [Installed], fun _ _ _ => id⟩
  | cons pair pairs ih =>
    obtain ⟨a, staged⟩ := pair
    obtain ⟨mem, inside⟩ := members (a, staged) mem_cons_self
    have proper := (holds.1.current t current).1
    rw [map_cons, nodup_cons] at distinct
    apply wp_try (wp_adapt (wp_outcome (wp_steps atomicInstallFile_touches atomicInstallFile_spec
      Stays.exec fun s' stays => holds.target current mem opened stays)))
    · rintro _ s₁ holds₁ ⟨⟨content, mode, found, installed⟩, stays⟩
      have worked := Worked.of_stays proper mem stays
      refine wp_mono ?_ (ih (fun pair rest => members pair (mem_cons_of_mem _ rest))
        distinct.2 holds₁ (worked.current current) (opened.target proper mem stays))
      intro result s₂ _ established
      cases result with
      | error e => exact ⟨established.1, worked.trans established.2⟩
      | ok _ =>
        obtain ⟨⟨opened₂, worked₂⟩, others, kept⟩ := established
        refine ⟨⟨opened₂, worked.trans worked₂⟩, ?_, ?_⟩
        · intro pair' mem'
          rcases mem_cons.mp mem' with rfl | rest
          · refine ⟨content, mode, ?_, kept _ _ distinct.1 installed⟩
            rw [worked₂.tree _ inside, worked.tree _ inside]
            exact found
          · exact others pair' rest
        · intro q n away there
          rw [map_cons, mem_cons, not_or] at away
          exact kept q n away.2 (stays.tree.kept away.1 there)
    · rintro e s₁ _ ⟨_, stays⟩
      exact ⟨opened.target proper mem stays, .of_stays proper mem stays⟩

/-! ### The rollback -/

/-- The original content and permission bits come back, or the new file goes. -/
theorem restoreBackup_spec (backed : BackedUp env t s.tree b a) :
    Ensures (exec env) admits (restoreBackup env b) (fun _ s' => Restored env t s'.tree a) s := by
  obtain ⟨target, ⟨existed, content, mode, mode', original, bits, _, there⟩ | ⟨missing, original⟩⟩ :=
    backed
  · rw [restoreBackup, if_pos existed]
    apply wrap_spec
    apply ensures_mono _ atomicInstallFile_spec
    rintro _ s' ⟨content', mode'', found, installed⟩
    rw [there] at found
    cases found
    rw [target] at installed
    rw [Restored, installed, original, bits]
    simp [stateOf]
  · rw [restoreBackup, if_neg (by simp [missing])]
    apply ensures_bind (wrap_spec unlink_spec)
    rintro removed s₁ ⟨gone, _⟩
    have restored : Restored env t s₁.tree a := by
      rw [target] at gone
      rw [Restored, gone, original]
    split
    · exact syncDirectoryPath_spec restored
    · exact ensures_pure restored

/-- What is restored stays restored while another target is worked on. -/
theorem Restored.keep {a' : UpgradeArtifact} (restored : Restored env t s.tree a')
    (other : a'.place env ≠ a.place env) (stays : Stays (a.place env) s s')
    (above : t.originals.node (a.place env) ≠ none ∨ s.tree.Replaces (a.place env) s'.tree) :
    Restored env t s'.tree a' := by
  rcases stays.tree (a'.place env) other with same | ⟨missing, made, higher⟩
  · rw [Restored, same]
    exact restored
  · rcases above with original | replaces
    · -- the original target lies below, so the place above was a directory
      have dir := t.originals.node_above original higher other
      rw [Restored, missing, dir] at restored
      cases restored
    · rw [replaces (a'.place env) other, missing] at made
      cases made

theorem wp_restoreBackup (backed : BackedUp env t s.tree b a) (mem : a ∈ t.artifacts)
    (holds : Holds env stateDir strict s) (current : s.current = some t) (opened : Opened env t s) :
    Maintains env admits stateDir strict (restoreBackup env b).run
      (fun r s' => outcome (fun _ s' => Restored env t s'.tree a) (fun _ => True) r s' ∧
        Stays (a.place env) s s' ∧
        (t.originals.node (a.place env) ≠ none ∨ s.tree.Replaces (a.place env) s'.tree)) s := by
  have spec : Ensures (exec env) admits (restoreBackup env b) (fun _ s' => Restored env t s'.tree a) s :=
    restoreBackup_spec backed
  obtain ⟨target, ⟨existed, content, mode, _, original, _⟩ | ⟨missing, _⟩⟩ := backed
  · have touches : (restoreBackup env b : Fallible C Unit).run.Only (Op.Touches (a.place env)) := by
      rw [restoreBackup, if_pos existed, target]
      exact wrap_only atomicInstallFile_touches
    refine wp_mono ?_ (wp_steps touches spec Stays.exec fun s' stays =>
      holds.target current mem opened stays)
    rintro result s' _ ⟨established, stays⟩
    exact ⟨established, stays, .inl (by rw [original]; simp)⟩
  · have removes : (restoreBackup env b : Fallible C Unit).run.Only
        (Op.At (a.place env)) := by
      rw [restoreBackup, if_neg (by simp [missing]), target]
      apply only_try (wrap_only (unlink_only (.inr ⟨_, rfl, rfl⟩)))
      intro removed
      split
      · exact syncDirectoryPath_only fun _ => .inl
      · trivial
    refine wp_mono ?_ (wp_steps removes spec exec_at fun s' keeps =>
      holds.target current mem opened (keeps.mono FileTree.Replaces.alters))
    rintro result s' _ ⟨established, keeps⟩
    exact ⟨established, keeps.mono FileTree.Replaces.alters, .inr keeps.tree⟩

-- By induction on the backups: every restored target stays restored.
theorem wp_restoreBackups {backups : List UpgradeBackup}
    (backed : List.Forall₂ (BackedUp env t s.tree) backups artifacts)
    (members : ∀ a ∈ artifacts, a ∈ t.artifacts)
    (distinct : (artifacts.map (UpgradeArtifact.place env)).Nodup) (holds : Holds env stateDir strict s)
    (current : s.current = some t) (opened : Opened env t s) :
    Maintains env admits stateDir strict (restoreBackups env backups)
      (fun errors s' => (Opened env t s' ∧ Worked t s s') ∧
        (errors = [] → ∀ a ∈ artifacts, Restored env t s'.tree a) ∧
        ∀ a, a.place env ∉ artifacts.map (UpgradeArtifact.place env) → Restored env t s.tree a →
          Restored env t s'.tree a) s := by
  induction backups generalizing artifacts s with
  | nil =>
    cases backed
    apply wp_done
    exact ⟨⟨opened, .refl s⟩, by simp, fun _ _ => id⟩
  | cons b backups ih =>
    obtain _ | ⟨first, rest⟩ := backed
    rename_i a artifacts
    have mem := members a mem_cons_self
    have proper := (holds.1.current t current).1
    rw [map_cons, nodup_cons] at distinct
    apply wp_then (wp_restoreBackup first mem holds current opened)
    rintro restored s₁ holds₁ ⟨done, stays, above⟩
    have worked := Worked.of_stays proper mem stays
    apply wp_then (ih (rest.imp fun _ _ one => one.keep fun _ inside => (worked.tree _ inside).trans)
      (fun a' later => members a' (mem_cons_of_mem a later)) distinct.2 holds₁
      (worked.current current) (opened.target proper mem stays))
    rintro errors s₂ _ ⟨⟨opened₂, worked₂⟩, others, kept⟩
    -- also what was restored before this call stays
    have keeps : ∀ a', a'.place env ∉ (a :: artifacts).map (UpgradeArtifact.place env) →
        Restored env t s.tree a' → Restored env t s₂.tree a' := by
      intro a' away before
      rw [map_cons, mem_cons, not_or] at away
      exact kept a' away.2 (before.keep away.1 stays above)
    cases restored with
    | error e =>
      apply wp_done
      exact ⟨⟨opened₂, worked.trans worked₂⟩, by simp, keeps⟩
    | ok _ =>
      apply wp_done
      refine ⟨⟨opened₂, worked.trans worked₂⟩, ?_, keeps⟩
      intro clean a' mem'
      rcases mem_cons.mp mem' with rfl | later
      · exact kept a' distinct.1 done
      · exact others clean a' later

theorem Holds.undo (holds : Holds env stateDir strict s) :
    Holds env stateDir strict { s with undone := true } := by
  constructor
  · refine ⟨holds.1.dirs, holds.1.unique, ?_⟩
    intro t current
    obtain ⟨proper, settled⟩ := holds.1.current t current
    refine ⟨proper, ?_⟩
    rcases settled with agree | ⟨j, there, journaled⟩
    · exact .inl agree
    · refine .inr ⟨j, there, journaled.describes, journaled.backed, ?_, journaled.committed⟩
      intro _ still
      cases still
  · intro watched
    exact (holds.2 watched).keep rfl rfl (fun _ => rfl) fun _ => id

/-- A journal that is not committed allows a rollback. -/
theorem Opened.of_journaled {j : UpgradeJournal} (there : OnDisk env t.toPlan s j)
    (journaled : Journaled env t s j) (uncommitted : j.phase ≠ .committed) :
    Opened env t { s with undone := true } :=
  ⟨j, there, journaled.describes, journaled.backed, uncommitted, fun _ => rfl⟩

theorem wp_rollbackUpgrade {journal : UpgradeJournal} (holds : Holds env stateDir strict s)
    (current : s.current = some t) (opened : Opened env t { s with undone := true })
    (backed : Backed env t s.tree journal.backups) :
    Maintains env admits stateDir strict (rollbackUpgrade env journal).run
      (fun r s' => (Opened env t s' ∧ Worked t { s with undone := true } s' ∧
          admits s .rollback) ∧ (r = .ok () → AllOld env t s'.tree)) s := by
  have proper := (holds.1.current t current).1
  have started : Maintains env admits stateDir strict (Prog.ask .rollback)
      (fun _ s₁ => s₁ = { s with undone := true } ∧ admits s .rollback) s := by
    apply wp_last
    intro fate result s₁ admitted done
    cases done
    exact ⟨holds.undo, rfl, admitted⟩
  apply wp_lift started
  rintro _ s₁ holds₁ ⟨same, admitted⟩
  rw [← same] at opened ⊢
  have current₁ : s₁.current = some t := by
    rw [same]
    exact current
  -- the backups are restored in reverse order
  have reversed : List.Forall₂ (BackedUp env t s₁.tree) journal.backups.reverse t.artifacts.reverse := by
    rw [same]
    exact forall₂_reverse_iff.mpr backed
  have distinct : (t.artifacts.reverse.map (UpgradeArtifact.place env)).Nodup := by
    rw [map_reverse, nodup_reverse]
    exact proper.distinct
  apply wp_lift (wp_restoreBackups reversed (by simp) distinct holds₁ current₁ opened)
  rintro errors s₂ holds₂ ⟨⟨opened₂, worked₂⟩, restored, _⟩
  dsimp only
  split
  · apply wp_throw
    exact ⟨⟨opened₂, worked₂, admitted⟩, by simp⟩
  next clean =>
    refine wp_mono ?_ (wp_looks (restartAndCheck_only fun _ => id) wp_trivial holds₂)
    rintro result s₃ _ ⟨_, rfl⟩
    refine ⟨⟨opened₂, worked₂, admitted⟩, fun _ a mem => ?_⟩
    exact restored (not_not.mp clean) a (mem_reverse.mpr mem)

end Targets

end TrojanGo.Upgrade
