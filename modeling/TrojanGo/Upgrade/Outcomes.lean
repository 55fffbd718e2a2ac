import TrojanGo.Upgrade.Crashes

/-!
# Outcomes of an upgrade

`executeUpgrade` without a crash, with any failures. The targets must not meet the state directory
and the audit log.
-/
namespace TrojanGo.Upgrade

open Lib Prog

variable {C : Type} {env : Env C} {admits : World C → Op C → Prop} {s s' : World C}
  {stateDir : Path} {strict : Prop}

/-! ### The manifest -/

/-- The file is a valid manifest. -/
def Loads (env : Env C) (path : FilePath) (tree : FileTree C) (manifest : UpgradeManifest)
    (manifestDir : Path) : Prop :=
  ∃ content raw, tree.read (env.follow (path.locate env.cwd)) = .ok content ∧
    env.readManifest content = .ok (raw, false) ∧
    validateUpgradeManifest env.validateLoopbackAddress raw = .ok manifest ∧
    manifestDir = (path.locate env.cwd).tail

theorem loadUpgradeManifest_calm {path : FilePath} :
    (loadUpgradeManifest env path).run.Only fun op => op.calm = true := by
  apply only_try (wrap_only (readFile_only fun _ => id))
  intro data
  apply only_try (wrap_only (by trivial))
  rintro ⟨manifest, more⟩
  cases more with
  | true => trivial
  | false =>
    apply only_try (.ret _)
    intro validated
    exact .ret _

theorem ensures_value {α : Type} {value : Except String α} :
    Ensures (exec env) admits (ExceptT.mk (pure value) : Fallible C α)
      (fun v s' => s' = s ∧ value = .ok v) s := by
  cases value with
  | ok v => exact wp_done ⟨rfl, rfl⟩
  | error e => exact wp_done trivial

theorem loadUpgradeManifest_spec {path : FilePath} :
    Ensures (exec env) admits (loadUpgradeManifest env path)
      (fun loaded _ => Loads env path s.tree loaded.1 loaded.2) s := by
  apply ensures_bind (wrap_spec readFile_spec)
  rintro content s₁ ⟨same, read⟩
  subst same
  apply ensures_bind (wrap_spec ensures_value)
  rintro ⟨raw, more⟩ s₂ ⟨same, decoded⟩
  subst same
  cases more with
  | true => exact ensures_throw
  | false =>
    apply ensures_bind ensures_value
    rintro manifest s₃ ⟨_, accepted⟩
    exact ensures_pure ⟨content, raw, read, decoded, accepted, rfl⟩

/-! ### Execution -/

/-- Without a journal there is nothing to recover. -/
theorem recoverInterruptedUpgrade_absent {path : Path} {inv : World C → Prop} (holds : inv s)
    (absent : s.tree.node path = none) :
    wp (exec env) (.alone admits inv) (recoverInterruptedUpgrade env path).run
      (outcome (fun _ s' => s' = s) fun s' => s' = s) s := by
  apply wp_read holds
  intro result found _
  cases result with
  | error e =>
    dsimp only
    split
    · exact wp_success rfl
    · exact wp_throw rfl
  | ok data =>
    obtain ⟨mode, there⟩ := FileTree.read_ok (found data rfl)
    rw [absent] at there
    cases there

/-- The targets of the manifest, the state directory and the audit log do not meet, and no target
is a directory above the state directory. -/
structure Separate (env : Env C) (manifest : UpgradeManifest) : Prop where
  apart : (manifest.plan env "").Apart env
  above : ∀ a ∈ manifest.artifacts, ¬ a.place env <:+ manifest.statePath env

/-- Every target has the content and the mode that the manifest gives. -/
def InPlace (env : Env C) (manifest : UpgradeManifest) (tree : FileTree C) : Prop :=
  ∀ a ∈ manifest.artifacts, ∃ content, env.sha256 content = a.sha256 ∧
    tree.node (a.place env) = some (.file content a.fileMode)

theorem AllNew.in_place {manifest : UpgradeManifest} {plan : Plan} {tree : FileTree C}
    (artifacts : plan.artifacts = manifest.artifacts) (new : AllNew env plan tree) :
    InPlace env manifest tree := by
  intro a mem
  rw [← artifacts] at mem
  obtain ⟨i, found⟩ := List.getElem?_of_mem mem
  obtain ⟨content, ⟨digest, _⟩, installed⟩ := new i a found
  exact ⟨content, digest, installed⟩

/-- How an upgrade ends. -/
inductive Conclusion (env : Env C) (manifest : UpgradeManifest) (before : FileTree C)
    (s : World C) : Except String Unit → Prop where
  | success (new : InPlace env manifest s.tree)
      (cleared : s.tree.node (activeJournal (manifest.statePath env)) = none) :
      Conclusion env manifest before s (.ok ())
  | journal (e : String) (there : s.tree.node (activeJournal (manifest.statePath env)) ≠ none) :
      Conclusion env manifest before s (.error e)
  | unchanged (e : String)
      (old : ∀ a ∈ manifest.artifacts, stateOf (s.tree.node (a.place env)) = stateOf (before.node (a.place env))) :
      Conclusion env manifest before s (.error e)
  | committed (e : String) (t : Transaction C) (current : s.current = some t)
      (new : InPlace env manifest s.tree) (logged : CommitLogged env t.toPlan s.tree) :
      Conclusion env manifest before s (.error e)

section Execute

variable {manifest : UpgradeManifest} {manifestDir : Path}

/-- The ends of the transaction, in terms of the manifest. -/
theorem Conclusion.of_ended {t : Transaction C} {before : FileTree C} {result : Except String Unit}
    {id : String} (plan : t.toPlan = manifest.plan env id)
    (originals : ∀ a ∈ manifest.artifacts, t.originals.node (a.place env) = before.node (a.place env))
    (ended : Ended env t result s) : Conclusion env manifest before s result := by
  have artifacts : t.artifacts = manifest.artifacts := by rw [plan]; rfl
  have place : t.stateDir = manifest.statePath env := by rw [plan]; rfl
  obtain ⟨current, established⟩ := ended
  rw [place] at established
  cases result with
  | ok _ => exact .success (established.1.in_place artifacts) established.2
  | error e =>
    rcases established with there | old | ⟨new, logged⟩
    · exact .journal e there
    · refine .unchanged e ?_
      intro a mem
      rw [← originals a mem]
      exact old a (artifacts ▸ mem)
    · exact .committed e t current (new.in_place artifacts) logged

/-- The lock and the state directory are not above a target. -/
theorem Separate.locked (separate : Separate env manifest)
    (stays : Stays ("upgrade.lock" :: manifest.statePath env) s s') :
    ∀ a ∈ manifest.artifacts, s'.tree.node (a.place env) = s.tree.node (a.place env) := by
  intro a mem
  apply stays.tree.outside
  intro above
  rcases List.suffix_cons_iff.mp above with same | higher
  · apply separate.apart.targets a mem
    rw [same]
    exact List.suffix_cons _ _
  · exact separate.above a mem higher

theorem wp_executeManifest_outcome (accepted : Accepted env.validateLoopbackAddress manifest)
    (separate : Separate env manifest) (loose : ¬ strict) (begun : s.begun = [])
    (absent : s.tree.node (activeJournal (manifest.statePath env)) = none) :
    Maintains env admits (manifest.statePath env) strict
      (executeManifest env manifest manifestDir).run
      (fun result s' => Conclusion env manifest s.tree s' result) s := by
  have suitable : Suitable env (manifest.statePath env) manifest := ⟨accepted, rfl, separate.apart⟩
  have same {e : String} {s₁ : World C}
      (stays : Stays ("upgrade.lock" :: manifest.statePath env) s s₁) :
      Conclusion env manifest s.tree s₁ (.error e) := by
    refine .unchanged e ?_
    intro a mem
    rw [separate.locked stays a mem]
  have journal {s₁ : World C} (stays : Stays ("upgrade.lock" :: manifest.statePath env) s s₁) :
      s₁.tree.node (activeJournal (manifest.statePath env)) = none := by
    rw [stays.tree.outside, absent]
    intro above
    have equal := above.eq_of_length (by simp)
    simp at equal
  -- there is no journal, so the recovery returns at once
  have recovers : ∀ s₁, Stays ("upgrade.lock" :: manifest.statePath env) s s₁ →
      Holds env (manifest.statePath env) strict s₁ →
      Maintains env admits (manifest.statePath env) strict
        (recoverInterruptedUpgrade env (activeJournal (manifest.statePath env))).run
        (outcome (fun _ s₂ => Stays ("upgrade.lock" :: manifest.statePath env) s s₂)
          fun s₂ => Stays ("upgrade.lock" :: manifest.statePath env) s s₂) s₁ := by
    intro s₁ stays holds₁
    apply wp_mono _ (recoverInterruptedUpgrade_absent holds₁ (journal stays))
    intro result s₂ _ kept
    cases result with
    | ok | error => exact kept ▸ stays
  apply wp_executeManifest suitable (.of_nil loose begun) (fun _ _ => same) recovers
  · intro e s₁ stays
    exact same stays
  intro s₁ holds₁ stays
  apply wp_mono _ (wp_startTransaction suitable holds₁ (journal stays))
  rintro result s₂ _ (⟨t, originals, ⟨id, plan⟩, ended⟩ | ⟨failed, targets⟩)
  · apply Conclusion.of_ended plan _ ended
    intro a mem
    rw [originals]
    exact separate.locked stays a mem
  · cases result with
    | ok _ => exact absurd rfl failed
    | error e =>
      refine .unchanged e ?_
      intro a mem
      rw [targets a mem, separate.locked stays a mem]

end Execute

/-- Every run that returns: without a valid manifest nothing changes and the result is an error. -/
theorem executeUpgrade_concludes {tree : FileTree C} {manifestPath : FilePath}
    {fates : List (Fate C)} {result : Except String Unit} {s' : World C}
    (suits : ∀ manifest manifestDir, Loads env manifestPath tree manifest manifestDir →
      Separate env manifest ∧ tree.node (activeJournal (manifest.statePath env)) = none)
    (ran : (executeUpgrade env manifestPath).run.run (exec env) fates { tree } =
      (.returned result, s')) :
    (result ≠ .ok () ∧ s'.tree = tree) ∨
      ∃ manifest manifestDir, Loads env manifestPath tree manifest manifestDir ∧
        Conclusion env manifest tree s' result := by
  have holds : wp (exec env) (.alone (fun _ _ => True) fun _ => True)
      (executeUpgrade env manifestPath).run
      (fun result s' => (result ≠ .ok () ∧ s'.tree = tree) ∨
        ∃ manifest manifestDir, Loads env manifestPath tree manifest manifestDir ∧
          Conclusion env manifest tree s' result) { tree } := by
    apply wp_try (wp_outcome (wp_looks loadUpgradeManifest_calm loadUpgradeManifest_spec trivial))
    · rintro ⟨manifest, manifestDir⟩ s₁ _ ⟨loads, rfl⟩
      obtain ⟨separate, absent⟩ := suits manifest manifestDir loads
      obtain ⟨_, raw, _, _, accepted, _⟩ := id loads
      have start : Holds env (manifest.statePath env) False { tree } := .of_nil id rfl
      apply wp_mono _ (wp_free start
        (wp_executeManifest_outcome ⟨raw, accepted⟩ separate id rfl absent))
      intro result s₂ _ concluded
      exact .inr ⟨manifest, manifestDir, loads, concluded⟩
    · rintro e s₁ _ ⟨_, rfl⟩
      exact .inl ⟨by simp, rfl⟩
  have sound := run_sound (fun _ => rfl) trivial (runMeets_trivial fates) holds
  rw [ran] at sound
  exact sound.2 result rfl

open Sample in
/-- The upgrade of the small machine, without a failure. -/
theorem sample_upgrade_concludes :
    ∃ s', (executeUpgrade machine (rooted ["upgrade.json"])).run.run (exec machine) (good 150)
        { tree } = (.returned (.ok ()), s') ∧
      (((Except.ok () : Except String Unit) ≠ .ok () ∧ s'.tree = tree) ∨
        ∃ manifest manifestDir, Loads machine (rooted ["upgrade.json"]) tree manifest manifestDir ∧
          Conclusion machine manifest tree s' (.ok ())) := by
  have ended : ((executeUpgrade machine (rooted ["upgrade.json"])).run.run (exec machine) (good 150)
      { tree }).1 = .returned (.ok ()) := by
    decide +kernel
  have ran := run_of_outcome ended
  refine ⟨_, ran, executeUpgrade_concludes ?_ ran⟩
  rintro loaded manifestDir ⟨content, raw, read, decoded, accepted, _⟩
  have file : tree.read (machine.follow ((rooted ["upgrade.json"]).locate machine.cwd)) =
      .ok [.manifest manifest] := by
    decide +kernel
  cases file.symm.trans read
  cases decoded
  cases validated.symm.trans accepted
  exact ⟨⟨suitable.apart, by decide +kernel⟩, by decide +kernel⟩

namespace Sample

/-- An upgrade of the small machine with another manifest, and how its operations go. -/
structure Trial where
  env : Env (List Text) := machine
  manifest : UpgradeManifest
  fates : List (Fate (List Text)) := good 150

namespace Trial

def tree (trial : Trial) : FileTree (List Text) :=
  Sample.tree.set "over.json" [] (.file [.manifest trial.manifest] 0o600) rfl
    (.inr (by decide +kernel))

def ended (trial : Trial) : Outcome (Except String Unit) × World (List Text) :=
  (executeUpgrade trial.env (rooted ["over.json"])).run.run (exec trial.env) trial.fates
    { tree := trial.tree }

/-- The manifest is accepted, there is no journal, and the run ends in none of the ways. -/
def Refutes (trial : Trial) : Prop :=
  (∃ manifestDir, Loads trial.env (rooted ["over.json"]) trial.tree trial.manifest manifestDir) ∧
    trial.tree.node (activeJournal (trial.manifest.statePath trial.env)) = none ∧
    ∃ result s', trial.ended = (.returned result, s') ∧
      ¬ Conclusion trial.env trial.manifest trial.tree s' result

def starts (trial : Trial) : Bool :=
  trial.tree.read (trial.env.follow ["over.json"]) = .ok [.manifest trial.manifest] &&
    trial.env.readManifest [.manifest trial.manifest] = .ok (trial.manifest, false) &&
    validateUpgradeManifest trial.env.validateLoopbackAddress trial.manifest =
      .ok trial.manifest &&
    trial.tree.node (activeJournal (trial.manifest.statePath trial.env)) = none

/-- Some target does not have the digest of the manifest. -/
def spoiled (trial : Trial) (tree : FileTree (List Text)) : Bool :=
  trial.manifest.artifacts.any fun a =>
    match tree.node (a.place trial.env) with
    | some (.file content _) => trial.env.sha256 content ≠ a.sha256
    | _ => true

/-- Some target is not what it was. -/
def changed (trial : Trial) (tree : FileTree (List Text)) : Bool :=
  trial.manifest.artifacts.any fun a =>
    stateOf (tree.node (a.place trial.env)) ≠ stateOf (trial.tree.node (a.place trial.env))

def fails (trial : Trial) : Bool :=
  match trial.ended with
  | (.returned (.ok ()), s) => trial.spoiled s.tree
  | (.returned (.error _), s) =>
    s.tree.node (activeJournal (trial.manifest.statePath trial.env)) = none &&
      trial.changed s.tree &&
      (trial.spoiled s.tree || (s.current.map fun t => s.tree.node t.auditLog) = some none)
  | _ => false

theorem spoiled_spec {trial : Trial} {tree : FileTree (List Text)}
    (spoiled : trial.spoiled tree = true) : ¬ InPlace trial.env trial.manifest tree := by
  intro inPlace
  obtain ⟨a, mem, wrong⟩ := List.any_eq_true.mp spoiled
  obtain ⟨content, digest, there⟩ := inPlace a mem
  simp [there, digest] at wrong

/-- The two evaluations decide a trial. -/
theorem refutes {trial : Trial} (starts : trial.starts = true) (fails : trial.fails = true) :
    trial.Refutes := by
  simp only [Trial.starts, Bool.and_eq_true, decide_eq_true_eq] at starts
  obtain ⟨⟨⟨read, decoded⟩, accepted⟩, absent⟩ := starts
  refine ⟨⟨_, _, _, read, decoded, accepted, rfl⟩, absent, ?_⟩
  unfold Trial.fails at fails
  split at fails
  next s ended =>
    refine ⟨_, s, ended, ?_⟩
    rintro ⟨new, -⟩
    exact spoiled_spec fails new
  next e s ended =>
    simp only [Bool.and_eq_true, Bool.or_eq_true, decide_eq_true_eq] at fails
    obtain ⟨⟨gone, changed⟩, wrong⟩ := fails
    refine ⟨_, s, ended, ?_⟩
    intro concluded
    cases concluded with
    | journal _ there => exact there gone
    | unchanged _ old =>
      obtain ⟨a, mem, other⟩ := List.any_eq_true.mp changed
      exact of_decide_eq_true other (old a mem)
    | committed _ t current new logged =>
      rcases wrong with spoiled | missing
      · exact spoiled_spec spoiled new
      · obtain ⟨_, _, _, _, _, there⟩ := logged
        simp [current, there] at missing
  · cases fails

end Trial

/-- `/srv` is a link to the root. -/
def linked : Env (List Text) :=
  { machine with follow := fun p => if p.getLast? = some "srv" then p.dropLast else p }

/-- An artifact that does not have its digest. -/
def broken (target : FilePath) : UpgradeArtifact := artifact "a" target 'b'

/-- A target that is the audit log, two targets that are one file, a target in the state
directory, one above it, one above the audit log, and the journal as the audit log. -/
def trials : List Trial := [
  { manifest := { manifest with artifacts := [artifact "a" (rooted ["log"]) 'a'] } },
  { env := linked, manifest := { manifest with
      artifacts := [artifact "a" (rooted ["a"]) 'a', artifact "b" (rooted ["srv", "a"]) 'b'] } },
  { manifest := { manifest with artifacts := [broken (rooted ["state", "upgrade.lock"])] } },
  { manifest := { manifest with
      artifacts := [broken (rooted ["dir"])], stateDir := rooted ["dir", "state"] } },
  { manifest := { manifest with
      artifacts := [broken (rooted ["dir"])], auditLog := rooted ["dir", "log"] } },
  { manifest := { manifest with auditLog := rooted ["state", "active.json"] }
    fates := good 116 ++ [{ status := .fails }] }]

end Sample

/-- Without the separation an upgrade can end in none of these ways. -/
theorem places_must_be_separate : Sample.trials.Forall Sample.Trial.Refutes := by
  have evaluated : ∀ trial ∈ Sample.trials, trial.starts = true ∧ trial.fails = true := by
    decide +kernel
  refine List.forall_iff_forall_mem.mpr fun trial mem => ?_
  exact Sample.Trial.refutes (evaluated trial mem).1 (evaluated trial mem).2

end TrojanGo.Upgrade
