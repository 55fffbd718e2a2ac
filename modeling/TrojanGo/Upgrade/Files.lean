import TrojanGo.Upgrade.Programs

/-!
# Files

What the file programs of an upgrade leave behind. All of them work on one path: other paths
keep their nodes, up to new directories above it, and the books do not change.
-/
namespace TrojanGo.Upgrade

open Lib Prog FileTree

variable {C : Type} {env : Env C} {s s' s'' : World C} {path : Path}

/-- The tree changes as `R` says, and the books do not change. -/
structure Keeps (R : FileTree C → FileTree C → Prop) (s s' : World C) : Prop where
  tree : R s.tree s'.tree
  begun : s'.begun = s.begun := by rfl
  audits : s'.audits = s.audits := by rfl
  undone : s'.undone = s.undone := by rfl

/-- Only `path` and the directories above it may differ. -/
abbrev Stays (path : Path) : World C → World C → Prop := Keeps (Alters path)

/-- Only what lies below a directory may differ. -/
abbrev Within (root : Path) : World C → World C → Prop := Keeps (Confined root)

namespace Keeps

variable {R R' : FileTree C → FileTree C → Prop}

theorem refl [Std.Refl R] (s : World C) : Keeps R s s := .mk (Std.Refl.refl s.tree)

theorem trans [IsTrans _ R] (first : Keeps R s s') (second : Keeps R s' s'') : Keeps R s s'' where
  tree := IsTrans.trans _ _ _ first.tree second.tree
  begun := second.begun.trans first.begun
  audits := second.audits.trans first.audits
  undone := second.undone.trans first.undone

instance [IsPreorder _ R] : IsPreorder (World C) (Keeps R) where
  refl := .refl
  trans _ _ _ := .trans

theorem current {t : Transaction C} (keeps : Keeps R s s') (current : s.current = some t) :
    s'.current = some t := by
  rw [World.current, keeps.begun]
  exact current

theorem mono (weaker : R s.tree s'.tree → R' s.tree s'.tree) (keeps : Keeps R s s') :
    Keeps R' s s' :=
  ⟨weaker keeps.tree, keeps.begun, keeps.audits, keeps.undone⟩

end Keeps

/-- The path whose node an operation changes. -/
def Act.target : Act C → Option Path
  | .mkdir p | .create p _ | .write p _ | .openFile p _ | .rename p _ _ | .remove p => some p
  | _ => none

/-- The operations that change nothing that is modelled. -/
def Act.idle : Act C → Bool
  | .createTemp _ | .file _ _ | .host _ => true
  | _ => false

variable {α : Type}

theorem bind_ok {ε β : Type} {x : Except ε α} {f : α → Except ε β} {b : β} (done : x >>= f = .ok b) :
    ∃ a, x = .ok a ∧ f a = .ok b := by
  cases x with
  | error e => cases done
  | ok a => exact ⟨a, rfl, done⟩

variable {a : Act C}

variable {fate : Fate C}

theorem effect_idle (idle : a.idle = true) (done : s.effect env a = .ok s') :
    s' = s := by
  cases a <;> cases idle
  case createTemp =>
    obtain ⟨n, _, same⟩ := bind_ok done
    cases n <;> cases same
    rfl
  all_goals
    cases done
    rfl

variable {result : Except Failure Unit}

/-- What `perform` can end in: nothing happened, the whole effect, or a part of it. -/
theorem perform_cases (done : perform env fate s a = (result, s')) :
    s' = s ∧ result ≠ .ok () ∨ s.effect env a = .ok s' ∨
      s.tornEffect env fate a = .ok s' ∧ result ≠ .ok () := by
  grind [perform]

/-- What an operation that changed its target leaves there. -/
def Act.Leaves (tree : FileTree C) : Act C → Prop
  | .rename path content mode => tree.node path = some (.file content mode)
  | .remove path => tree.node path = none
  | .openFile path _ => tree.node path ≠ none
  | _ => True

/-- What an operation makes of the state. Any of them may also do nothing. -/
inductive Effect (s : World C) : Op C → World C → Prop where
  | same (op : Op C) : Effect s op s
  | node {a path tree} (target : a.target = some path) (replaces : s.tree.Replaces path tree)
      (leaves : a.Leaves tree) : Effect s (.act a) { s with tree }
  | made {path tree} (new : ∀ q, tree.node q = s.tree.node q ∨
      (s.tree.node q = none ∧ tree.node q = some .dir ∧ q <:+ path)) :
      Effect s (.act (.mkdirAll path)) { s with tree }
  | log {path record tree audits} (replaces : s.tree.Replaces path tree)
      (there : tree.node path ≠ none)
      (added : audits = s.audits ∨ audits = ⟨s.tree, record⟩ :: s.audits) :
      Effect s (.act (.append path record)) { s with tree, audits }
  | begin (plan : Plan) (tree : FileTree C) : Effect s (.act (.begin plan))
      { s with tree, begun := ⟨plan, s.tree⟩ :: s.begun, undone := false }
  | rollback : Effect s .rollback { s with undone := true }

/-- A file that was updated is there. -/
theorem update_there {tree tree' : FileTree C} {fresh : C} {mode : Nat} {f : C → C}
    (updated : tree.update path fresh mode f = .ok tree') : tree'.node path ≠ none := by
  obtain ⟨⟨_, _, found⟩, _⟩ := update_ok updated
  rw [found]
  simp

variable {op : Op C}

/-- The one case analysis of `exec`; what operations keep is read off it. -/
theorem exec_effect {result : Res op} (done : exec env fate s op = some (result, s')) :
    Effect s op s' := by
  cases op with
  | act a =>
    rcases perform_cases (Option.some.inj done) with ⟨same, _⟩ | whole | ⟨part, _⟩
    · rw [same]
      exact .same _
    · -- each call changes the tree as its lemma says
      cases a with
      | createTemp | file | host =>
        rw [effect_idle rfl whole]
        exact .same _
      | _ =>
        obtain ⟨tree, changed, same⟩ := bind_ok whole
        cases same
        first
          | exact .node rfl (mkdir_ok changed).2.2 trivial
          | exact .node rfl (create_ok changed).2.2 trivial
          | exact .node rfl (update_ok changed).2 trivial
          | exact .node rfl (update_ok changed).2 (update_there changed)
          | exact .node rfl (place_ok changed).2 (place_ok changed).1
          | exact .node rfl (remove_ok changed).2 (remove_ok changed).1
          | exact .made (mkdirAll_ok changed).2
          | exact .log (update_ok changed).2 (update_there changed) (.inr rfl)
          | exact .begin _ _
    · -- a torn operation leaves some of the directories or another content
      cases a with
      | mkdirAll =>
        obtain ⟨tree, made, same⟩ := bind_ok part
        cases same
        exact .made fun q => ((mkdirAll_ok made).2 q).imp_right fun ⟨missing, new, above⟩ =>
          ⟨missing, new, above.trans (List.drop_suffix _ _)⟩
      | write =>
        obtain ⟨tree, written, same⟩ := bind_ok part
        cases same
        exact .node rfl (update_ok written).2 trivial
      | append =>
        obtain ⟨tree, written, same⟩ := bind_ok part
        cases same
        exact .log (update_ok written).2 (update_there written) (.inl rfl)
      | _ =>
        cases part
        exact .same _
  | rollback =>
    cases done
    exact .rollback
  | _ =>
    cases done
    exact .same _

/-- The operations that change nothing. -/
def Op.calm : Op C → Bool
  | .read _ | .lstat _ | .now | .getpid | .waits _ => true
  | .act a => a.idle
  | .rollback => false

theorem exec_calm {result : Res op} (calm : op.calm = true)
    (done : exec env fate s op = some (result, s')) : s = s' := by
  cases exec_effect done with
  | same => rfl
  | @node a _ _ target => cases a <;> cases target <;> cases calm
  | _ => cases calm

/-- The operations that change the node of `path`, or nothing. -/
def Op.At (path : Path) (op : Op C) : Prop :=
  op.calm = true ∨ ∃ a, op = .act a ∧ a.target = some path

/-- The operations that work on `path`. -/
def Op.Touches (path : Path) (op : Op C) : Prop :=
  op.At path ∨ op = .act (.mkdirAll path.tail)

/-- The operations that work below a directory. -/
def Op.Inside (root : Path) (op : Op C) : Prop := ∃ path, op.At path ∧ root <:+ path

theorem exec_at {result : Res op} (at_ : op.At path)
    (done : exec env fate s op = some (result, s')) : Keeps (Replaces path) s s' := by
  rcases at_ with calm | ⟨a, rfl, target⟩
  · rw [exec_calm calm done]
    exact .refl s'
  · cases exec_effect done with
    | same => exact .refl s
    | node target' replaces =>
      cases target.symm.trans target'
      exact .mk replaces
    | _ => cases target

theorem exec_mkdirAll (done : exec env fate s (.act (.mkdirAll path.tail)) = some (result, s')) :
    Stays path s s' := by
  cases exec_effect done with
  | same => exact .refl s
  | node target => cases target
  | made new =>
    refine .mk fun q _ => (new q).imp_right fun ⟨missing, made, above⟩ => ⟨missing, made, ?_⟩
    exact above.trans (List.tail_suffix path)

theorem Stays.exec {result : Res op} (touches : op.Touches path)
    (done : exec env fate s op = some (result, s')) : Stays path s s' := by
  rcases touches with at_ | rfl
  · exact (exec_at at_ done).mono Replaces.alters
  · exact exec_mkdirAll done

theorem Within.exec {root : Path} {result : Res op} (inside : op.Inside root)
    (done : exec env fate s op = some (result, s')) :
    Within root s s' := by
  obtain ⟨path, at_, below⟩ := inside
  exact (exec_at at_ done).mono fun replaced => by grind [Replaces, Confined]

/-- A program that only looks. -/
theorem wp_looks {p : Routine C α} {post : α → World C → Prop} {admits : World C → Op C → Prop}
    {inv : World C → Prop} (only : p.Only fun op => op.calm = true)
    (spec : wp (exec env) (.alone admits fun _ => True) p post s) (safe : inv s) :
    wp (exec env) (.alone admits inv) p (fun v s' => post v s' ∧ s = s') s :=
  wp_steps only spec exec_calm fun _ same => same ▸ safe

/-! ### Which operations a program performs -/

variable {source : Path} {mode : Nat}

section Only

variable {allowed : Op C → Prop}

theorem act_only (holds : allowed (.act a)) : (act a).run.Only allowed :=
  .step holds fun _ => trivial

theorem ask_only (holds : allowed op) : (ask op).run.Only allowed :=
  only_lift (.ask holds)

theorem wrap_only {text : String} {p : Fallible C α} (only : p.run.Only allowed) :
    (wrap text p).run.Only allowed :=
  only_adapt only

theorem unlink_only (removes : allowed (.act (.remove path))) :
    (unlink path : Fallible C Bool).run.Only allowed := by
  grind [unlink, ask_only]

attribute [grind ←] act_only ask_only wrap_only unlink_only

variable (calm : ∀ op : Op C, op.calm = true → allowed op)

include calm

variable {p : Path} {checks : List UpgradeHealthCheck}

theorem readFile_only : (readFile p : Fallible C C).run.Only allowed :=
  .step (calm _ rfl) fun _ => trivial

theorem fileCall_only {call : FileCall} :
    (act (.file call p) : Fallible C Unit).run.Only allowed :=
  act_only (calm _ rfl)

theorem createTemp_only {directory : Path} :
    (act (.createTemp directory) : Fallible C Unit).run.Only allowed :=
  act_only (calm _ rfl)

theorem host_only {call : HostCall} : (act (.host call) : Fallible C Unit).run.Only allowed :=
  act_only (calm _ rfl)

attribute [grind ←] readFile_only fileCall_only createTemp_only host_only

theorem syncDirectoryPath_only :
    (syncDirectoryPath p : Fallible C Unit).run.Only allowed :=
  only_try (fileCall_only calm) fun _ => fileCall_only calm

attribute [grind ←] syncDirectoryPath_only

section

variable (writes : ∀ a : Act C, a.target = some path → allowed (.act a))

include writes

theorem copyFileSync_only :
    (copyFileSync source path mode : Fallible C Unit).run.Only allowed := by
  apply only_try (readFile_only calm)
  intro _
  apply only_try (act_only (writes _ rfl))
  intro _
  apply only_try (only_lift (by grind [copyContent, Act.target]))
  grind [Act.target]

end

theorem removeAndSync_only (removes : allowed (.act (.remove path))) :
    (removeAndSync path : Fallible C Unit).run.Only allowed := by
  grind [removeAndSync]

theorem atomicInstallFile_only (makes : allowed (.act (.mkdirAll (env.place path).tail)))
    (renames : ∀ content, allowed (.act (.rename (env.place path) content mode))) :
    (atomicInstallFile env source path mode).run.Only allowed := by
  apply only_try (wrap_only (act_only makes))
  intro _
  apply only_try (createTemp_only calm)
  intro _
  apply only_try (fileCall_only calm)
  intro _
  apply only_try (readFile_only calm)
  grind

theorem writeJSONAtomic_only {journal : UpgradeJournal}
    (makes : allowed (.act (.mkdirAll path.tail)))
    (renames : allowed (.act (.rename path (env.journalText journal) mode))) :
    (writeJSONAtomic env path journal mode).run.Only allowed := by
  apply only_try (act_only makes)
  intro _
  apply only_try (createTemp_only calm)
  grind

theorem appendUpgradeAudit_only {log : FilePath} {record : UpgradeAuditRecord}
    (makes : allowed (.act (.mkdirAll (auditPath env log).tail)))
    (opens : allowed (.act (.openFile (auditPath env log) 0o600)))
    (appends : allowed (.act (.append (auditPath env log) record))) :
    (appendUpgradeAudit env log record).run.Only allowed := by
  unfold appendUpgradeAudit
  grind

theorem hostFailures_only {calls : List HostCall} :
    (hostFailures calls : Routine C (List String)).Only allowed := by
  induction calls with
  | nil => trivial
  | cons call calls ih => exact .bind (host_only calm) fun _ => .bind ih fun _ => trivial

variable {services : List String}

theorem checkUpgradeHealth_only {waits : Nat} :
    (checkUpgradeHealth waits services checks : Fallible C Unit).run.Only allowed := by
  unfold checkUpgradeHealth
  induction waits with
  | zero =>
    apply only_try (only_lift (hostFailures_only calm))
    intro failed
    split <;> trivial
  | succ waits ih =>
    apply only_try (only_lift (hostFailures_only calm))
    intro failed
    split
    · trivial
    · exact ih

theorem restartServices_only :
    (restartServices services : Fallible C Unit).run.Only allowed := by
  induction services with grind [restartServices]

theorem restartAndCheck_only {seconds : Int} :
    (restartAndCheck seconds services checks : Fallible C Unit).run.Only allowed := by
  grind [restartAndCheck, restartServices_only, checkUpgradeHealth_only, Op.calm]

end Only

theorem atomicInstallFile_touches :
    (atomicInstallFile env source path mode).run.Only (Op.Touches (env.place path)) :=
  atomicInstallFile_only (fun _ calm => .inl (.inl calm)) (.inr rfl)
    fun _ => .inl (.inr ⟨_, rfl, rfl⟩)

/-! ### What the programs leave behind -/

section Specs

variable {admits : World C → Op C → Prop}

variable {found : Except Errno α} {good : α → World C → Prop} {p : Fallible C α}

theorem answer_ok {call : String} {value : α} (answered : answer fate call found = .ok value) :
    found = .ok value := by
  unfold answer at answered
  split at answered <;> cases answered
  rfl

/-- An answer that something is missing is true. -/
theorem answer_missing {call : String} {e : Failure} (answered : answer fate call found = .error e)
    (missing : e.missing = true) :
    found = .error .noEntry := by
  unfold answer at answered
  split at answered <;> cases answered
  · simpa [Failure.ofErrno] using missing
  · cases missing

theorem perform_ok (done : perform env fate s a = (.ok (), s')) : s.effect env a = .ok s' := by
  simpa using perform_cases done

theorem remove_missing {e : Failure} (done : perform env fate s (.remove path) = (.error e, s'))
    (missing : e.missing = true) :
    s' = s ∧ s.tree.node path = none := by
  have absent {e' : Errno} (failed : s.effect env (.remove path) = .error e')
      (entry : e' = .noEntry) : s.tree.node path = none := by
    apply remove_noEntry
    subst entry
    cases removed : s.tree.remove path <;> rw [World.effect, removed] at failed <;> cases failed
    rfl
  -- an error of the fate never says that the file is missing
  unfold perform at done
  split at done
  · grind [Failure.ofErrno]
  · cases done
    cases missing
  · split at done
    · cases done
      cases missing
    next e' failed =>
      cases done
      exact ⟨rfl, absent failed (by simpa [Failure.ofErrno] using missing)⟩
  · cases done
    cases missing

theorem act_admitted : Ensures (exec env) admits (act a)
    (fun _ s' => admits s (.act a) ∧ s.effect env a = .ok s') s := by
  apply wp_map
  apply wp_last
  intro fate result s' admitted done
  refine ⟨trivial, ?_⟩
  cases result with
  | ok _ => exact ⟨admitted, perform_ok (Option.some.inj done)⟩
  | error e => trivial

theorem act_spec :
    Ensures (exec env) admits (act a) (fun _ s' => s.effect env a = .ok s') s :=
  ensures_mono (fun _ _ done => done.2) act_admitted

theorem readFile_spec {p : Path} : Ensures (exec env) admits (readFile p)
    (fun content s' => s' = s ∧ s.tree.read p = .ok content) s := by
  apply wp_map
  apply wp_last
  intro fate result s' _ done
  refine ⟨trivial, ?_⟩
  cases result with
  | ok content =>
    have answered := Option.some.inj done
    exact ⟨(congrArg Prod.snd answered).symm, answer_ok (congrArg Prod.fst answered)⟩
  | error e => trivial

theorem fileSHA256_spec {p : Path} : Ensures (exec env) admits (fileSHA256 env p) (fun digest s' =>
    s' = s ∧ ∃ content mode, s.tree.node p = some (.file content mode) ∧
      digest = env.sha256 content) s := by
  apply ensures_bind readFile_spec
  rintro content s' ⟨same, read⟩
  obtain ⟨mode, found⟩ := read_ok read
  exact ensures_pure ⟨same, content, mode, found, rfl⟩

theorem ask_act_spec : Ensures (exec env) admits (ask (.act a))
    (fun result s' => ∃ fate, perform env fate s a = (result, s')) s := by
  apply ensures_lift
  apply wp_last
  intro fate result s' _ done
  exact ⟨trivial, fate, Option.some.inj done⟩

theorem lstat_spec {p : Path} : Ensures (exec env) admits (ask (.lstat p)) (fun result s' => s' = s ∧
    (∀ n, result = .ok n → s.tree.node p = some n) ∧
    ∀ e, result = .error e → e.missing = true → s.tree.node p = none) s := by
  apply ensures_lift
  apply wp_last
  intro fate result s' _ done
  have answered := congrArg Prod.fst (Option.some.inj done)
  refine ⟨trivial, (congrArg Prod.snd (Option.some.inj done)).symm, ?_, ?_⟩
  · rintro n rfl
    grind [FileTree.lstat, answer_ok answered]
  · rintro e rfl missing
    exact lstat_noEntry (answer_missing answered missing)

theorem wrap_spec {text : String} (holds : Ensures (exec env) admits p good s) :
    Ensures (exec env) admits (wrap text p) good s :=
  wp_adapt holds

theorem unlink_spec : Ensures (exec env) admits (unlink path)
    (fun _ s' => s'.tree.node path = none ∧ s.tree.Replaces path s'.tree) s := by
  apply ensures_bind ask_act_spec
  rintro result s' ⟨fate, done⟩
  cases result with
  | ok _ =>
    obtain ⟨t, removed, same⟩ := bind_ok (perform_ok done)
    cases same
    exact ensures_pure (remove_ok removed)
  | error e =>
    dsimp only
    split
    next missing =>
      obtain ⟨same, absent⟩ := remove_missing done missing
      cases same
      exact ensures_pure ⟨absent, refl s.tree⟩
    · exact ensures_throw

theorem idle_spec (idle : a.idle = true) :
    Ensures (exec env) admits (act a) (fun _ s' => s' = s) s :=
  ensures_mono (fun _ _ done => effect_idle idle done) act_spec

theorem syncDirectoryPath_spec {p : Path} {good : World C → Prop} (holds : good s) :
    Ensures (exec env) admits (syncDirectoryPath p) (fun _ => good) s := by
  apply ensures_bind (idle_spec rfl)
  intro _ s₁ same
  subst same
  apply ensures_mono _ (idle_spec rfl)
  intro _ s₂ same
  subst same
  exact holds

theorem removeAndSync_spec :
    Ensures (exec env) admits (removeAndSync path) (fun _ s' => s'.tree.node path = none) s :=
  ensures_bind unlink_spec fun _ _ removed => syncDirectoryPath_spec removed.1

theorem rename_spec {content : C} : Ensures (exec env) admits (act (.rename path content mode))
    (fun _ s' => s'.tree.node path = some (.file content mode)) s := by
  apply ensures_mono _ act_spec
  intro _ s' done
  obtain ⟨t, placed, same⟩ := bind_ok done
  cases same
  exact (place_ok placed).1

theorem copyContent_spec : Ensures (exec env) admits (copyContent source path)
    (fun _ s' => ∃ content mode' mode'', s.tree.node source = some (.file content mode') ∧
      s'.tree.node path = some (.file content mode'')) s := by
  apply ensures_bind readFile_spec
  rintro content s₁ ⟨same, read⟩
  subst same
  obtain ⟨mode', found⟩ := read_ok read
  apply ensures_bind act_spec
  intro _ s₂ wrote
  obtain ⟨t, written, same⟩ := bind_ok wrote
  cases same
  obtain ⟨⟨_, mode'', placed⟩, _⟩ := update_ok written
  apply ensures_bind (idle_spec rfl)
  intro _ s₃ same₃
  refine ensures_mono ?_ (idle_spec rfl)
  intro _ s₄ same₄
  subst same₃ same₄
  exact ⟨content, mode', mode'', found, placed⟩

/-- The new file is a copy of the old one. -/
theorem copyFileSync_spec :
    Ensures (exec env) admits (copyFileSync source path mode) (fun _ s' => ∃ content mode' mode'',
      s.tree.node source = some (.file content mode') ∧ s.tree.node path = none ∧
      s'.tree.node path = some (.file content mode'')) s := by
  apply ensures_bind readFile_spec
  rintro content₀ s₀ ⟨same, opened⟩
  subst same
  apply ensures_bind act_spec
  intro _ s₁ made
  obtain ⟨t, created, same⟩ := bind_ok made
  cases same
  obtain ⟨absent, _, replaces⟩ := create_ok created
  -- the source exists and the target did not, so they differ
  obtain ⟨mode', there⟩ := read_ok opened
  have other : source ≠ path := by
    rintro rfl
    rw [there] at absent
    cases absent
  apply ensures_bind (ensures_lift copyContent_spec)
  intro written s₂ established
  cases written with
  | ok _ =>
    obtain ⟨content, mode', mode'', found, placed⟩ := established
    exact ensures_pure
      ⟨content, mode', mode'', (replaces source other).symm.trans found, absent, placed⟩
  | error e =>
    -- the half-written target is removed and the error returned
    exact ensures_bind ask_act_spec fun _ _ _ => ensures_throw

/-- The target becomes a copy of the source, with the given mode. -/
theorem atomicInstallFile_spec :
    Ensures (exec env) admits (atomicInstallFile env source path mode) (fun _ s' =>
      ∃ content mode', s.tree.node source = some (.file content mode') ∧
      s'.tree.node (env.place path) = some (.file content mode)) s := by
  apply ensures_bind (wrap_spec act_spec)
  intro _ s₁ done
  obtain ⟨t, made, same⟩ := bind_ok done
  -- new nodes are directories, so the file that is read was there before
  have before : ∀ content mode', s₁.tree.node source = some (.file content mode') →
      s.tree.node source = some (.file content mode') := by
    cases same
    intro content mode' found
    rcases (mkdirAll_ok made).2 source with old | ⟨_, new, _⟩
    · exact old.symm.trans found
    · rw [found] at new
      cases new
  -- the temporary file is opened, filled, synced and closed; only its rename is seen
  apply ensures_bind (idle_spec rfl)
  intro _ s₂ same₂
  apply ensures_bind (idle_spec rfl)
  intro _ s₃ same₃
  apply ensures_bind readFile_spec
  rintro content s₄ ⟨same₄, read⟩
  subst same₂ same₃ same₄
  obtain ⟨mode', found⟩ := read_ok read
  refine ensures_after fun _ s₅ => ensures_after fun _ s₆ => ensures_after fun _ s₇ =>
    ensures_after fun _ s₈ => ensures_bind rename_spec ?_
  intro _ s₉ installed
  exact syncDirectoryPath_spec ⟨content, mode', before content mode' found, installed⟩

theorem writeJSONAtomic_spec {journal : UpgradeJournal} :
    Ensures (exec env) admits (writeJSONAtomic env path journal mode)
      (fun _ s' => s'.tree.node path = some (.file (env.journalText journal) mode)) s := by
  refine ensures_after fun _ s₁ => ensures_after fun _ s₂ => ensures_after fun _ s₃ =>
    ensures_after fun _ s₄ => ensures_after fun _ s₅ => ensures_after fun _ s₆ =>
    ensures_bind rename_spec ?_
  intro _ s₇ written
  exact syncDirectoryPath_spec written

theorem calm_spec (only : p.run.Only fun op => op.calm = true) :
    Ensures (exec env) admits p (fun _ s' => s' = s) s :=
  ensures_mono (fun _ _ both => both.2.symm) (ensures_with (wp_looks only ensures_trivial trivial))

/-- The copy is new, and nothing else is lost. -/
theorem copyFileSync_grows :
    Ensures (exec env) admits (copyFileSync source path mode) (fun _ s' =>
      (∃ content mode' mode'', s.tree.node source = some (.file content mode') ∧
        s'.tree.node path = some (.file content mode'')) ∧ s.tree.Grows s'.tree) s := by
  have touches : (copyFileSync source path mode : Fallible C Unit).run.Only (Op.Touches path) :=
    copyFileSync_only (fun _ calm => .inl (.inl calm)) fun a target => .inl (.inr ⟨a, rfl, target⟩)
  apply ensures_mono _ (ensures_with (wp_steps touches copyFileSync_spec Stays.exec fun _ _ => trivial))
  rintro _ s' ⟨⟨content, mode', mode'', found, missing, placed⟩, stays⟩
  exact ⟨⟨content, mode', mode'', found, placed⟩, stays.tree.grows missing⟩

end Specs

end TrojanGo.Upgrade
