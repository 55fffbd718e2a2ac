import TrojanGo.Upgrade.Execution

/-!
# Upgrades, crashes and recoveries

Sessions of upgrades and recoveries on one state directory, with crashes anywhere. The journal
stays healthy while a recovery rolls back, so a second recovery can mistake a half restored
upgrade for a finished one; the results exclude this.
-/
namespace TrojanGo.Upgrade

open Lib Prog

variable {C : Type} {env : Env C} {stateDir : Path}

inductive Command where
  | upgrade (manifest : UpgradeManifest) (manifestDir : Path)
  | recover

def Command.program (env : Env C) (stateDir : Path) : Command → Routine C (Except String Unit)
  | .upgrade manifest manifestDir => (executeManifest env manifest manifestDir).run
  | .recover => (recoverInterruptedUpgrade env (activeJournal stateDir)).run

def Command.Suits (env : Env C) (stateDir : Path) : Command → Prop
  | .upgrade manifest _ => Suitable env stateDir manifest
  | .recover => True

/-- Commands with their schedules; a schedule that is too short is a crash. -/
def programs (env : Env C) (stateDir : Path) (jobs : List (Command × List (Fate C))) :
    List (Routine C (Except String Unit) × List (Fate C)) :=
  jobs.map fun (command, fates) => (command.program env stateDir, fates)

/-- Commands one after another keep the invariant, wherever each of them crashes. -/
theorem session_holds {strict : Prop} {jobs : List (Command × List (Fate C))} {s : World C}
    (suits : ∀ job ∈ jobs, job.1.Suits env stateDir) (start : Holds env stateDir strict s)
    (meets : SessionMeets (exec env) (Admits strict) (programs env stateDir jobs) s) :
    Holds env stateDir strict (session (exec env) (programs env stateDir jobs) s) := by
  apply session_sound _ start meets
  intro job mem s₁ holds
  obtain ⟨⟨command, fates⟩, given, same⟩ := List.mem_map.mp mem
  subst same
  cases command with
  | upgrade manifest manifestDir => exact executeManifest_keeps (suits _ given) holds
  | recover => exact recoverInterruptedUpgrade_keeps holds

/-! ### A small machine -/

namespace Sample

/-- What a file of the machine consists of. -/
inductive Text where
  | raw (text : String)
  | manifest (manifest : UpgradeManifest)
  | journal (journal : UpgradeJournal)
  | record (record : UpgradeAuditRecord)
  deriving DecidableEq

def digest (c : Char) : String := String.ofList (List.replicate 64 c)

def machine : Env (List Text) where
  empty := []
  append := (· ++ ·)
  sha256
    | [.raw text] => digest (text.toList.headD '0')
    | _ => digest '0'
  journalText journal := [.journal journal]
  readJournal
    | [.journal journal] => .ok journal
    | _ => .error "invalid character"
  journal_roundtrip _ := rfl
  recordText record := [.record record]
  readManifest
    | [.manifest manifest] => .ok (manifest, false)
    | _ => .error "invalid character"
  blank := List.isEmpty
  validJSON _ := .ok ()
  validYAML _ := .ok ()
  validateLoopbackAddress _ := .ok ()

def rooted (elements : List String) : FilePath := { absolute := true, elements }

def artifact (name : String) (target : FilePath) (sum : Char) : UpgradeArtifact where
  source := rooted ["src", name]
  target := target
  sha256 := digest sum
  mode := "0644"

def manifest : UpgradeManifest where
  version := "2"
  artifacts := [artifact "a" (rooted ["a"]) 'a', artifact "b" (rooted ["b"]) 'b']
  services := ["trojan-go.service"]
  stateDir := rooted ["state"]
  auditLog := rooted ["log"]
  healthTimeout := 30

def files (entries : List (Path × Node (List Text))) : Finmap fun _ : Path => Node (List Text) :=
  entries.foldl (fun nodes entry => nodes.insert entry.1 entry.2) ∅

def tree : FileTree (List Text) where
  nodes := files [(["src"], .dir), (["a", "src"], .file [.raw "a"] 0o600),
    (["b", "src"], .file [.raw "b"] 0o600), (["upgrade.json"], .file [.manifest manifest] 0o600),
    (["a"], .file [.raw "old-a"] 0o755), (["b"], .file [.raw "old-b"] 0o600)]
  tree := by decide +kernel

def upgrades : Path := ["state"]

theorem validated :
    validateUpgradeManifest machine.validateLoopbackAddress manifest = .ok manifest := by
  decide +kernel

theorem suitable : Suitable machine upgrades manifest where
  accepted := ⟨manifest, validated⟩
  stateDir := by decide
  apart := {
    targets := by decide +kernel
    links := by decide +kernel
    log := by decide +kernel
    journal := by decide +kernel
    audit := by
      intro id _
      have top : (manifest.plan machine "").auditLog.tail = [] := by decide +kernel
      rw [top]
      exact fun above => nomatch List.suffix_nil.mp above }

/-- So many operations that succeed. -/
def good (n : Nat) : List (Fate (List Text)) := List.replicate n {}

/-- An upgrade that crashes when its journal has just become healthy. -/
def crashed : Command × List (Fate (List Text)) := (.upgrade manifest [], good 94)

/-- A recovery whose health check fails, and that crashes after so many more operations. -/
def unhealthy (n : Nat) : Command × List (Fate (List Text)) :=
  (.recover, good 2 ++ [{ status := .fails }] ++ good n)

theorem suits {jobs : List (Command × List (Fate (List Text)))}
    (commands : ∀ job ∈ jobs, job.1 = .upgrade manifest [] ∨ job.1 = .recover) :
    ∀ job ∈ jobs, job.1.Suits machine upgrades := by
  intro job mem
  rcases commands job mem with upgrade | recover
  · rw [upgrade]
    exact suitable
  · rw [recover]
    trivial

/-- The second target is the old one. -/
theorem not_new {tree : FileTree (List Text)} {t : Transaction (List Text)}
    (second : tree.node ["b"] = some (.file [.raw "old-b"] 0o600))
    (artifacts : t.artifacts = manifest.artifacts) : ¬ AllNew machine t.toPlan tree := by
  intro new
  obtain ⟨content, _, installed⟩ := new 1 (artifact "b" (rooted ["b"]) 'b')
    (by simp [artifacts, manifest])
  have place : (artifact "b" (rooted ["b"]) 'b').place machine = ["b"] := by decide
  have mode : (artifact "b" (rooted ["b"]) 'b').fileMode = 0o644 := by decide +kernel
  rw [place, second, mode] at installed
  cases installed

/-- The machine after the commands. -/
def after (jobs : List (Command × List (Fate (List Text)))) : World (List Text) :=
  session (exec machine) (programs machine upgrades jobs) { tree }

end Sample

/-! ### All or nothing -/

/-- From any file system, after any session and at the end of a recovery without error: the
targets of the last transaction are all as before it or all new. The recovery that an upgrade
starts with is one of these, after an upgrade that crashed at that point. -/
theorem recovery_all_or_nothing {tree : FileTree C} {jobs : List (Command × List (Fate C))}
    {fates : List (Fate C)} {s : World C} (suits : ∀ job ∈ jobs, job.1.Suits env stateDir)
    (meets : SessionMeets (exec env) (fun s op => op.resumesUndone s = false)
      (programs env stateDir (jobs ++ [(.recover, fates)])) { tree })
    (recovered : (Command.recover.program env stateDir).run (exec env) fates
      (session (exec env) (programs env stateDir jobs) { tree }) = (.returned (.ok ()), s)) :
    s.tree.node (activeJournal stateDir) = none ∧
      ∀ t, s.current = some t → AllOld env t s.tree ∨ AllNew env t.toPlan s.tree := by
  have split : programs env stateDir (jobs ++ [(.recover, fates)]) =
      programs env stateDir jobs ++ [(Command.recover.program env stateDir, fates)] :=
    List.map_append
  rw [split] at meets
  have admitted : ∀ (_ : Fate C) (s : World C) (op : Op C), op.resumesUndone s = false →
      Admits False s op :=
    fun _ _ _ still => ⟨still, False.elim⟩
  have start : Holds env stateDir False { tree } := .of_nil id rfl
  obtain ⟨before, last⟩ := inTurnFares_append.mp meets
  have holds := session_holds suits start (before.mono admitted)
  have sound := run_sound (fun _ => rfl) holds (last.1.mono admitted)
    (wp_recoverInterruptedUpgrade holds)
  rw [recovered] at sound
  have absent := sound.2 _ rfl
  refine ⟨absent, ?_⟩
  intro t current
  obtain ⟨proper, ⟨_, agree⟩ | ⟨j, ⟨mode, there⟩, _⟩⟩ := sound.1.1.current t current
  · exact agree
  · -- a journal would be there, but the recovery has removed it
    rw [proper.stateDir, show s.tree.node _ = none from absent] at there
    cases there

open Sample in
/-- The upgrade crashed with a healthy journal, the recovery finishes its commit. -/
theorem crashed_upgrade_recovered :
    ∃ s, (Command.recover.program machine upgrades).run (exec machine) (good 30) (after [crashed]) =
        (.returned (.ok ()), s) ∧
      s.tree.node (activeJournal upgrades) = none ∧
      ∀ t, s.current = some t → AllOld machine t s.tree ∨ AllNew machine t.toPlan s.tree := by
  have ended : ((Command.recover.program machine upgrades).run (exec machine) (good 30)
      (after [crashed])).1 = .returned (.ok ()) := by
    decide +kernel
  have recovered := run_of_outcome ended
  exact ⟨_, recovered, recovery_all_or_nothing (suits (by simp [crashed]))
    (by decide +kernel) recovered⟩

/-- What the second recovery leaves. -/
def Sample.mixed : World (List Text) :=
  ((Command.recover.program machine upgrades).run (exec machine) (good 30)
    (after [crashed, unhealthy 10])).2

open Sample in
/-- One target is new, the other one is old, and the journal is gone. -/
theorem Sample.mixed_state :
    ((Command.recover.program machine upgrades).run (exec machine) (good 30)
        (after [crashed, unhealthy 10])).1 = .returned (.ok ()) ∧
      mixed.tree.node (activeJournal upgrades) = none ∧
      mixed.current.map (fun t => (t.artifacts, t.originals.node ["a"])) =
        some (manifest.artifacts, some (.file [.raw "old-a"] 0o755)) ∧
      mixed.tree.node ["a"] = some (.file [.raw "a"] 0o644) ∧
      mixed.tree.node ["b"] = some (.file [.raw "old-b"] 0o600) := by
  -- the run is evaluated once for all of these
  decide +kernel

open Sample in
/-- The first recovery finds the services unhealthy, restores one of the two targets and crashes.
The second one finds them healthy and records a commit. -/
theorem second_recovery_mixes_targets :
    (∀ job ∈ [crashed, unhealthy 10], job.1.Suits machine upgrades) ∧
    ∃ s, (Command.recover.program machine upgrades).run (exec machine) (good 30)
        (after [crashed, unhealthy 10]) = (.returned (.ok ()), s) ∧
      s.tree.node (activeJournal upgrades) = none ∧
      ∃ t, s.current = some t ∧ ¬ AllOld machine t s.tree ∧ ¬ AllNew machine t.toPlan s.tree := by
  obtain ⟨outcome, absent, known, first, second⟩ := mixed_state
  refine ⟨suits (by simp [crashed, unhealthy]), mixed, run_of_outcome outcome, absent, ?_⟩
  obtain ⟨t, current, same⟩ := Option.map_eq_some_iff.mp known
  obtain ⟨artifacts, original⟩ := Prod.mk.inj same
  refine ⟨t, current, ?_, ?_⟩
  · intro old
    have restored := old (artifact "a" (rooted ["a"]) 'a') (by simp [artifacts, manifest])
    have place : (artifact "a" (rooted ["a"]) 'a').place machine = ["a"] := by decide
    rw [Restored, place, original, first] at restored
    exact absurd restored (by decide)
  · exact not_new second artifacts

/-! ### The audit log -/

/-- A commit record is appended when all targets are the artifacts it lists, and no transaction
has both a commit record and a record of its undoing. -/
theorem audit_log_truthful {tree : FileTree C} {jobs : List (Command × List (Fate C))}
    (absent : tree.node (activeJournal stateDir) = none)
    (suits : ∀ job ∈ jobs, job.1.Suits env stateDir)
    (meets : SessionMeets (exec env)
      (fun s op => op.resumesUndone s = false ∧ op.undoesCommitted s = false)
      (programs env stateDir jobs) { tree }) :
    let s := session (exec env) (programs env stateDir jobs) { tree }
    (s.begun.map fun t => t.id).Nodup ∧
    (∀ e ∈ s.audits, e.record.status.commits = true → ∃ t ∈ s.begun, t.id = e.record.id ∧
      AllNew env t.toPlan e.tree ∧ e.record.artifacts = hashesOf t.artifacts) ∧
    ∀ e ∈ s.audits, ∀ e' ∈ s.audits, e.record.status.commits = true →
      e'.record.status.undoes = true → e.record.id ≠ e'.record.id := by
  have start : Holds env stateDir True { tree } := by
    constructor
    · exact (Holds.of_nil id rfl : Holds env stateDir False { tree }).1
    · intro _
      constructor <;> simp [Recorded, World.current, absent]
  have admitted : ∀ (_ : Fate C) (s : World C) (op : Op C),
      op.resumesUndone s = false ∧ op.undoesCommitted s = false → Admits True s op :=
    fun _ _ _ still => ⟨still.1, fun _ => still.2⟩
  have holds := session_holds suits start (meets.mono admitted)
  have truthful := holds.2 trivial
  refine ⟨holds.1.unique, truthful.commits, ?_⟩
  intro e mem e' mem' commits undoes same
  exact truthful.exclusive _ ⟨e, mem, same, commits⟩ ⟨e', mem', rfl, undoes⟩

open Sample in
/-- The upgrade crashed with a healthy journal, the recovery records its commit. -/
theorem crashed_upgrade_audited :
    let s := after [crashed, (.recover, good 30)]
    (s.begun.map fun t => t.id).Nodup ∧
    (∀ e ∈ s.audits, e.record.status.commits = true → ∃ t ∈ s.begun, t.id = e.record.id ∧
      AllNew machine t.toPlan e.tree ∧ e.record.artifacts = hashesOf t.artifacts) ∧
    ∀ e ∈ s.audits, ∀ e' ∈ s.audits, e.record.status.commits = true →
      e'.record.status.undoes = true → e.record.id ≠ e'.record.id := by
  apply audit_log_truthful
  · decide +kernel
  · exact suits (by simp [crashed])
  · decide +kernel

open Sample in
/-- In the first run a recovery restores both targets and crashes, and the next one, which finds
the services healthy, records a commit. In the second run the upgrade crashes right after its
commit record, and the recovery, which finds the services unhealthy, undoes it. -/
theorem audit_log_contradicts_files :
    (∀ job ∈ [crashed, unhealthy 24, (.recover, good 30), (.upgrade manifest [], good 100),
      unhealthy 40], job.1.Suits machine upgrades) ∧
    (∃ e ∈ (after [crashed, unhealthy 24, (.recover, good 30)]).audits,
      e.record.status.commits = true ∧
      ∀ t ∈ (after [crashed, unhealthy 24, (.recover, good 30)]).begun,
        ¬ AllNew machine t.toPlan e.tree) ∧
    ∃ e ∈ (after [(.upgrade manifest [], good 100), unhealthy 40]).audits,
    ∃ e' ∈ (after [(.upgrade manifest [], good 100), unhealthy 40]).audits,
      e.record.status.commits = true ∧ e'.record.status.undoes = true ∧
        e.record.id = e'.record.id := by
  refine ⟨suits (by simp [crashed, unhealthy]), ?_, by decide +kernel⟩
  have record : ∃ e ∈ (after [crashed, unhealthy 24, (.recover, good 30)]).audits,
      e.record.status.commits = true ∧
        e.tree.node ["b"] = some (.file [.raw "old-b"] 0o600) := by
    decide +kernel
  have plans : ∀ t ∈ (after [crashed, unhealthy 24, (.recover, good 30)]).begun,
      t.artifacts = manifest.artifacts := by
    decide +kernel
  obtain ⟨e, mem, commits, second⟩ := record
  exact ⟨e, mem, commits, fun t begun => not_new second (plans t begun)⟩

end TrojanGo.Upgrade
