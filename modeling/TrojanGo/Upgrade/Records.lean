import TrojanGo.Upgrade.Transactions

/-!
# Journal and audit writes

The journal changes by one rename or one removal, so at any crash it is the old one or the new
one.
-/
namespace TrojanGo.Upgrade

open Lib Prog FileTree

variable {C : Type} {env : Env C} {s s' s'' : World C} {path : Path}

/-! ### Replacing a file -/

/-- The operations that turn the node of `path` into `n`. -/
def Op.Swaps (path : Path) (n : Option (Node C)) (op : Op C) : Prop :=
  op.calm = true ∨ op = .act (.mkdirAll path.tail) ∨ op = .act (.remove path) ∧ n = none ∨
    ∃ content mode, op = .act (.rename path content mode) ∧ n = some (.file content mode)

variable {n : Option (Node C)}

instance : IsPreorder (World C) (Swapped path n) where
  refl s := ⟨.refl s, .inl rfl⟩
  trans _ _ _ first second := ⟨first.stays.trans second.stays, by grind [first.node, second.node]⟩

variable {fate : Fate C}

theorem Swapped.exec {op : Op C} {result : Res op} (inside : path ≠ []) (swaps : op.Swaps path n)
    (done : exec env fate s op = some (result, s')) : Swapped path n s s' := by
  rcases swaps with calm | rfl | ⟨rfl, rfl⟩ | ⟨content, mode, rfl, rfl⟩
  · rw [exec_calm calm done]
    exact refl s'
  · refine ⟨exec_mkdirAll done, .inl ?_⟩
    cases exec_effect done with
    | same => rfl
    | node target => cases target
    | made new =>
      -- a path is not above the directory that it lies in
      refine (new path).resolve_right fun ⟨_, _, above⟩ => ?_
      have short := above.length_le
      have long := List.length_pos_iff.mpr inside
      rw [List.length_tail] at short
      omega
  all_goals
    refine ⟨(exec_at (.inr ⟨_, rfl, rfl⟩) done).mono Replaces.alters, ?_⟩
    cases exec_effect done with
    | same => exact .inl rfl
    | node _ _ leaves => exact .inr leaves

section Calls

variable {admits : World C → Op C → Prop} {stateDir : Path} {strict : Prop} {t : Transaction C}

section

variable (holds : Holds env stateDir strict s) (current : s.current = some t)

include holds current

/-- A journal that is true may be written; the write may also fail after its rename. -/
theorem wp_writeJournal {j : UpgradeJournal} (journaled : Journaled env t s j) :
    Maintains env admits stateDir strict (writeJSONAtomic env (activeJournal stateDir) j 0o600).run
      (fun r s' => outcome (fun _ s' => s'.tree.node (activeJournal stateDir) =
          some (.file (env.journalText j) 0o600)) (fun _ => True) r s' ∧
        Swapped (activeJournal stateDir) (some (.file (env.journalText j) 0o600)) s s') s := by
  apply wp_steps _ writeJSONAtomic_spec (Swapped.exec (by simp))
  · intro s' swapped
    exact holds.journal current journaled swapped
  · exact writeJSONAtomic_only (fun _ calm => .inl calm) (.inr (.inl rfl))
      (.inr (.inr (.inr ⟨_, _, rfl, rfl⟩)))

theorem wp_clearJournal (agree : AllOld env t s.tree ∨ AllNew env t.toPlan s.tree) :
    Maintains env admits stateDir strict (removeAndSync (activeJournal stateDir)).run
      (fun r s' => outcome (fun _ s' => s'.tree.node (activeJournal stateDir) = none)
          (fun _ => True) r s' ∧
        Swapped (activeJournal stateDir) none s s') s := by
  apply wp_steps _ removeAndSync_spec (Swapped.exec (by simp))
  · intro s' swapped
    exact holds.clear current agree swapped
  · exact removeAndSync_only (fun _ calm => .inl calm) (.inr (.inr (.inl ⟨rfl, rfl⟩)))

end

end Calls

/-! ### The audit log -/

/-- The operations of an append of `record` to the log at `path`. -/
def Op.LogsTo (path : Path) (record : UpgradeAuditRecord) (op : Op C) : Prop :=
  op.calm = true ∨ op = .act (.mkdirAll path.tail) ∨ op = .act (.openFile path 0o600) ∨
    op = .act (.append path record)

/-- The append was admitted in a state with the same books. -/
def Permitted (admits : World C → Op C → Prop) (path : Path) (record : UpgradeAuditRecord)
    (s : World C) : Prop :=
  ∃ s₁ : World C, s₁.begun = s.begun ∧ s₁.undone = s.undone ∧ admits s₁ (.act (.append path record))

structure Logged (admits : World C → Op C → Prop) (path : Path) (record : UpgradeAuditRecord)
    (s s' : World C) : Prop where
  tree : s.tree.Alters path s'.tree
  there : s.tree.node path ≠ none → s'.tree.node path ≠ none
  begun : s'.begun = s.begun
  undone : s'.undone = s.undone
  old : ∀ e ∈ s.audits, e ∈ s'.audits
  new : ∀ e ∈ s'.audits, e ∈ s.audits ∨
    e.record = record ∧ s.tree.Alters path e.tree ∧ Permitted admits path record s

section Log

variable {admits : World C → Op C → Prop} {record : UpgradeAuditRecord}

theorem Logged.refl (s : World C) : Logged admits path record s s :=
  ⟨Std.Refl.refl s.tree, id, rfl, rfl, fun _ => id, fun _ => .inl⟩

theorem Logged.keeps (logged : Logged admits path record s s')
    (there : s'.tree.node path ≠ none → s''.tree.node path ≠ none)
    (keeps : Stays path s' s'') : Logged admits path record s s'' where
  tree := IsTrans.trans _ _ _ logged.tree keeps.tree
  there := there ∘ logged.there
  begun := keeps.begun.trans logged.begun
  undone := keeps.undone.trans logged.undone
  old := keeps.audits ▸ logged.old
  new := keeps.audits ▸ logged.new

theorem Logged.current {t : Transaction C} (logged : Logged admits path record s s')
    (current : s.current = some t) : s'.current = some t := by
  rw [World.current, logged.begun]
  exact current

variable {tree' : FileTree C}

/-- Each operation of the append keeps to it, and the append itself was admitted. -/
theorem Logged.step {op : Op C} {result : Res op} (logged : Logged admits path record s s')
    (admitted : admits s' op) (logs : op.LogsTo path record)
    (done : exec env fate s' op = some (result, s'')) :
    Logged admits path record s s'' := by
  rcases logs with calm | rfl | rfl | rfl
  · rw [← exec_calm calm done]
    exact logged
  · apply logged.keeps _ (exec_mkdirAll done)
    intro there
    cases exec_effect done with
    | same => exact there
    | node target => cases target
    | made new =>
      rcases new path with same | ⟨missing, _⟩
      · rwa [same]
      · exact absurd missing there
  · apply logged.keeps _ ((exec_at (.inr ⟨_, rfl, rfl⟩) done).mono Replaces.alters)
    intro there
    cases exec_effect done with
    | same => exact there
    | node _ _ leaves => exact leaves
  · cases exec_effect done with
    | same => exact logged
    | node target => cases target
    | log replaces there added =>
      rcases added with rfl | rfl
      · exact logged.keeps (fun _ => there) (.mk replaces.alters)
      · -- the only step that adds a record
        refine ⟨IsTrans.trans _ _ _ logged.tree replaces.alters, fun _ => there, logged.begun,
          logged.undone, ?_, ?_⟩
        · intro e mem
          exact List.mem_cons_of_mem _ (logged.old e mem)
        · intro e mem
          rcases List.mem_cons.mp mem with rfl | earlier
          · exact .inr ⟨rfl, logged.tree, s', logged.begun, logged.undone, admitted⟩
          · exact logged.new e earlier

/-- A successful append leaves the record at the end of the log, and it was admitted. -/
theorem appendUpgradeAudit_spec {log : FilePath} :
    Ensures (exec env) admits (appendUpgradeAudit env log record) (fun _ s' =>
      Permitted admits (auditPath env log) record s ∧ ∃ content mode,
        s'.tree.node (auditPath env log) =
          some (.file (env.append content (env.recordText record)) mode)) s := by
  apply ensures_bind act_spec
  intro _ s₁ made
  apply ensures_bind act_spec
  intro _ s₂ opened
  apply ensures_bind act_admitted
  rintro _ s₃ ⟨admitted, appended⟩
  obtain ⟨t₁, _, same₁⟩ := bind_ok made
  cases same₁
  obtain ⟨t₂, _, same₂⟩ := bind_ok opened
  cases same₂
  obtain ⟨t₃, updated, same₃⟩ := bind_ok appended
  cases same₃
  obtain ⟨⟨content, mode, there⟩, _⟩ := update_ok updated
  have permitted : Permitted admits (auditPath env log) record s := by
    refine ⟨_, ?_, ?_, admitted⟩ <;> rfl
  apply ensures_bind (idle_spec rfl)
  intro _ s₄ same₄
  apply ensures_bind (idle_spec rfl)
  intro _ s₅ same₅
  subst same₄ same₅
  exact syncDirectoryPath_spec ⟨permitted, content, mode, there⟩

/-! #### Appends of the current transaction -/

variable {stateDir : Path} {strict : Prop} {t : Transaction C}

/-- A record of the transaction that may be appended: what it says is true, and it does not
contradict an earlier one. -/
structure Honest (env : Env C) (t : Transaction C) (s : World C) (record : UpgradeAuditRecord)
    (permitted : Prop) : Prop where
  id : record.id = t.id
  commits : record.status.commits = true → permitted →
    AllNew env t.toPlan s.tree ∧ record.artifacts = hashesOf t.artifacts ∧
      ¬ Recorded s t.id AuditStatus.undoes
  undoes : record.status.undoes = true → s.undone = true ∧ ¬ Recorded s t.id AuditStatus.commits

/-- A record that says neither. -/
theorem Honest.neutral {permitted : Prop} (id : record.id = t.id)
    (commits : record.status.commits = false) (undoes : record.status.undoes = false) :
    Honest env t s record permitted := by
  refine ⟨id, ?_, ?_⟩
  · intro does
    rw [commits] at does
    cases does
  · intro does
    rw [undoes] at does
    cases does

theorem AuditStatus.not_both {status : AuditStatus} (commits : status.commits = true) :
    status.undoes = false := by
  cases status <;> cases commits <;> rfl

section Current

variable (proper : t.Proper env stateDir)

include proper

section

variable (alters : s.tree.Alters t.auditLog tree')

include alters

theorem Logged.inside :
    t.SameInside s.tree tree' :=
  fun _ inside => alters.outside (proper.inside_log inside)

theorem Logged.targets :
    t.SameTargets env s.tree tree' :=
  fun a mem => alters.outside (proper.apart.log a mem)

theorem Logged.journal :
    tree'.node (activeJournal stateDir) = s.tree.node (activeJournal stateDir) :=
  alters.outside proper.journal_log

end

end Current

/-- A verdict in the log is an old one or the one that was appended. -/
theorem Logged.recorded {id : String} {kind : AuditStatus → Bool}
    (logged : Logged admits path record s s') (found : Recorded s' id kind) :
    Recorded s id kind ∨
      record.id = id ∧ kind record.status = true ∧ Permitted admits path record s := by
  obtain ⟨e, mem, same, status⟩ := found
  rcases logged.new e mem with old | ⟨rfl, _, permitted⟩
  · exact .inl ⟨e, old, same, status⟩
  · exact .inr ⟨same, status, permitted⟩

section

variable (holds : Holds env stateDir strict s) (current : s.current = some t)

include holds current

/-- An honest record may be appended, wholly or in part. -/
theorem Holds.log (honest : strict → Honest env t s record (Permitted admits t.auditLog record s))
    (logged : Logged admits t.auditLog record s s') : Holds env stateDir strict s' := by
  have inv := holds.1
  have proper := (inv.current t current).1
  have begun := World.current_mem current
  constructor
  · apply inv.keep logged.begun
    · -- the log may be an old transaction directory, but then it stays there
      intro t' mem
      obtain ⟨_, _, there⟩ := inv.dirs t' mem
      by_cases same : t'.dir = t.auditLog
      · rw [same] at there ⊢
        exact logged.there there
      · obtain ⟨n, found⟩ := Option.ne_none_iff_exists'.mp there
        rw [logged.tree.kept same found]
        simp
    · intro t' current' _ settled
      cases current.symm.trans current'
      apply settled.frame (Logged.inside proper logged.tree) (Logged.targets proper logged.tree)
        logged.undone
      rw [proper.stateDir]
      exact Logged.journal proper logged.tree
  · intro watched
    have truthful := holds.2 watched
    have honest := honest watched
    constructor
    · intro e mem
      rw [logged.begun]
      rcases logged.new e mem with old | ⟨rfl, _, _⟩
      · exact truthful.known e old
      · exact ⟨t, begun, honest.id.symm⟩
    · intro e mem commits
      rw [logged.begun]
      rcases logged.new e mem with old | ⟨rfl, tree, permitted⟩
      · exact truthful.commits e old commits
      · obtain ⟨new, hashes, _⟩ := honest.commits commits permitted
        exact ⟨t, begun, honest.id.symm,
          new.frame (Logged.inside proper tree) (Logged.targets proper tree), hashes⟩
    · -- no transaction gets its second verdict
      intro id committed undone
      rcases logged.recorded committed with old | ⟨same, commits, permitted⟩
      · rcases logged.recorded undone with old' | ⟨same, undoes, _⟩
        · exact truthful.exclusive id old old'
        · rw [honest.id] at same
          exact (honest.undoes undoes).2 (same ▸ old)
      · rw [honest.id] at same
        rcases logged.recorded undone with old' | ⟨_, undoes, _⟩
        · exact (honest.commits commits permitted).2.2 (same ▸ old')
        · rw [AuditStatus.not_both commits] at undoes
          cases undoes
    · intro t' current' undone
      rw [World.current, logged.begun] at current'
      cases current.symm.trans current'
      rw [logged.undone]
      rcases logged.recorded undone with old | ⟨_, undoes, _⟩
      · exact truthful.undone t current old
      · exact (honest.undoes undoes).1
    · intro none
      rw [logged.begun] at none
      exact absurd none (World.begun_ne_nil current)

theorem wp_log {log : FilePath} (place : auditPath env log = t.auditLog)
    (honest : strict → Honest env t s record (Permitted admits t.auditLog record s)) :
    Maintains env admits stateDir strict (appendUpgradeAudit env log record).run
      (fun r s' => outcome (fun _ s' => Permitted admits t.auditLog record s ∧ ∃ content mode,
          s'.tree.node t.auditLog =
            some (.file (env.append content (env.recordText record)) mode)) (fun _ => True) r s' ∧
        Logged admits t.auditLog record s s') s := by
  rw [← place] at honest ⊢
  apply wp_call _ appendUpgradeAudit_spec (Logged.refl s)
  · intro s₁ op logged admitted logs fate result s₂ done
    exact logged.step admitted logs done
  · intro s' logged
    rw [place] at honest logged
    exact holds.log current honest logged
  · exact appendUpgradeAudit_only (fun _ calm => .inl calm) (.inr (.inl rfl))
      (.inr (.inr (.inl rfl))) (.inr (.inr (.inr rfl)))

end

end Log

end TrojanGo.Upgrade
