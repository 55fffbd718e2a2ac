import TrojanGo.Upgrade.Files

/-!
# Transactions

While a journal exists, the backups of all targets are intact; a committed journal, and a healthy
one as long as no rollback has started, means that all targets are new; without a journal all
targets are old or all are new.
-/
namespace TrojanGo.Upgrade

open Lib Prog List

variable {C : Type} {env : Env C} {s s' s'' : World C} {path : Path}

abbrev activeJournal (stateDir : Path) : Path := "active.json" :: stateDir

/-! ### Paths -/

variable {q : Path}

theorem suffix_tail {p : Path} (above : q <:+ p) : q.tail <:+ p.tail := by
  cases p with
  | nil => simp [suffix_nil.mp above]
  | cons name parent =>
    rcases suffix_cons_iff.mp above with same | higher
    · rw [same]
    · exact (tail_suffix q).trans higher

/-- The name of a transaction directory, unlike those of the journal and the lock. -/
def Named (id : String) : Prop := ∃ startedAt pid, transactionID startedAt pid = id

theorem not_named {name : String} (plain : '-' ∉ name.toList) : ¬ Named name := by
  rintro ⟨startedAt, pid, rfl⟩
  apply plain
  simp only [transactionID, toString, String.toList_append, mem_append]
  exact .inl (.inr (by decide))

/-- The state directory, the audit log and the targets of a transaction do not meet: no two targets
are one file behind symbolic links, and the audit log is neither in the directory of a transaction
nor where the journal stands. -/
structure Plan.Apart (env : Env C) (plan : Plan) : Prop where
  targets : ∀ a ∈ plan.artifacts, ¬ plan.stateDir <:+ a.place env
  links : ∀ a ∈ plan.artifacts, ∀ b ∈ plan.artifacts, a.place env = b.place env → a.path = b.path
  log : ∀ a ∈ plan.artifacts, ¬ a.place env <:+ plan.auditLog
  journal : ¬ activeJournal plan.stateDir <:+ plan.auditLog
  audit : ∀ id, Named id → ¬ id :: plan.stateDir <:+ plan.auditLog.tail

structure Plan.Proper (env : Env C) (plan : Plan) (stateDir : Path) : Prop where
  stateDir : plan.stateDir = stateDir
  named : Named plan.id
  artifacts : ProperArtifacts plan.artifacts
  apart : plan.Apart env

variable {a : UpgradeArtifact}

namespace Plan

variable {plan : Plan} {stateDir : Path} (proper : plan.Proper env stateDir)

include proper

theorem Proper.dir_eq : plan.dir = plan.id :: stateDir := by
  rw [Plan.dir, proper.stateDir]

theorem Proper.target_outside (member : a ∈ plan.artifacts) :
    ¬ stateDir <:+ a.place env := by
  rw [← proper.stateDir]
  exact proper.apart.targets a member

/-- Different targets are different files. -/
theorem Proper.distinct : (plan.artifacts.map (UpgradeArtifact.place env)).Nodup := by
  have places : plan.artifacts.map (UpgradeArtifact.place env) =
      (plan.artifacts.map UpgradeArtifact.path).map env.place := by
    rw [map_map]
    rfl
  rw [places]
  apply Nodup.map_on _ proper.artifacts.distinct
  simp only [mem_map]
  rintro _ ⟨a, mem, rfl⟩ _ ⟨b, mem', rfl⟩ same
  exact proper.apart.links a mem b mem' same

/-- A path strictly below the transaction directory. -/
theorem Proper.inside_below (inside : plan.dir <:+ q.tail) : stateDir <:+ q := by
  rw [proper.dir_eq] at inside
  exact ((suffix_cons _ _).trans inside).trans (tail_suffix _)

theorem Proper.inside_log (inside : plan.dir <:+ q.tail) : ¬ q <:+ plan.auditLog :=
  fun above => proper.apart.audit _ proper.named (inside.trans (suffix_tail above))

/-- Nothing in the transaction directory is above its neighbours. -/
theorem Proper.inside_sibling {name : String} (inside : plan.dir <:+ q.tail) :
    ¬ q <:+ name :: stateDir := by
  intro above
  have short := above.length_le
  have long := inside.length_le
  simp only [proper.dir_eq, length_cons, length_tail] at short long
  omega

theorem Proper.journal_log : ¬ activeJournal stateDir <:+ plan.auditLog := by
  rw [← proper.stateDir]
  exact proper.apart.journal

/-- The directory has a `-` in its name, the journal has not. -/
theorem Proper.journal_outside : ¬ plan.dir <:+ activeJournal stateDir := by
  intro above
  rw [proper.dir_eq] at above
  have same := above.eq_of_length (by simp)
  simp only [cons.injEq] at same
  have named := proper.named
  rw [same.1] at named
  exact absurd named (not_named (by decide))

end Plan

/-! ### Old and new targets -/

/-- What an upgrade has to put back: existence, content and permission bits. -/
def stateOf : Option (Node C) → Option (Node C)
  | some (.file content mode) => some (.file content (mode % 0o1000))
  | n => n

def Restored (env : Env C) (t : Transaction C) (tree : FileTree C) (a : UpgradeArtifact) : Prop :=
  stateOf (tree.node (a.place env)) = stateOf (t.originals.node (a.place env))

/-- All targets are in their state from before the transaction. -/
def AllOld (env : Env C) (t : Transaction C) (tree : FileTree C) : Prop :=
  ∀ a ∈ t.artifacts, Restored env t tree a

/-- The staged copy of an artifact is intact. -/
def StagedAt (env : Env C) (plan : Plan) (tree : FileTree C) (i : Nat) (a : UpgradeArtifact)
    (content : C) : Prop :=
  env.sha256 content = a.sha256 ∧
    ∃ mode, tree.node (stagedPath plan.dir i) = some (.file content mode)

/-- All targets are the staged artifacts, with the manifest's digests and modes. -/
def AllNew (env : Env C) (plan : Plan) (tree : FileTree C) : Prop :=
  ∀ i a, plan.artifacts[i]? = some a → ∃ content, StagedAt env plan tree i a content ∧
    tree.node (a.place env) = some (.file content a.fileMode)

/-- Nothing changed strictly below the transaction directory. -/
def Plan.SameInside (plan : Plan) (tree tree' : FileTree C) : Prop :=
  ∀ q, plan.dir <:+ q.tail → tree'.node q = tree.node q

def Plan.SameTargets (env : Env C) (plan : Plan) (tree tree' : FileTree C) : Prop :=
  ∀ a ∈ plan.artifacts, tree'.node (a.place env) = tree.node (a.place env)

theorem stagedPath_inside (dir : Path) (i : Nat) : dir <:+ (stagedPath dir i).tail :=
  suffix_cons "staging" dir

variable {tree tree' : FileTree C} {t : Transaction C}

theorem AllOld.frame (same : t.SameTargets env tree tree') (old : AllOld env t tree) : AllOld env t tree' := by
  intro a member
  rw [Restored, same a member]
  exact old a member

variable {plan : Plan}

theorem StagedAt.frame {i : Nat} {content : C} (same : plan.SameInside tree tree')
    (staged : StagedAt env plan tree i a content) :
    StagedAt env plan tree' i a content := by
  obtain ⟨digest, mode, there⟩ := staged
  exact ⟨digest, mode, (same _ (stagedPath_inside plan.dir i)).trans there⟩

theorem AllNew.frame (inside : plan.SameInside tree tree') (targets : plan.SameTargets env tree tree')
    (new : AllNew env plan tree) :
    AllNew env plan tree' := by
  intro i a found
  obtain ⟨content, staged, installed⟩ := new i a found
  refine ⟨content, staged.frame inside, ?_⟩
  rw [targets a (mem_of_getElem? found)]
  exact installed

/-! ### Backups -/

/-- The backup of a target is what it was when the transaction began. -/
def BackedUp (env : Env C) (t : Transaction C) (tree : FileTree C) (b : UpgradeBackup) (a : UpgradeArtifact) :
    Prop :=
  b.target = a.path ∧
    (b.existed = true ∧ (∃ content mode mode', t.originals.node (a.place env) = some (.file content mode) ∧
        b.mode = mode % 0o1000 ∧ t.dir <:+ b.backupPath.tail ∧
        tree.node b.backupPath = some (.file content mode')) ∨
      b.existed = false ∧ t.originals.node (a.place env) = none)

abbrev Backed (env : Env C) (t : Transaction C) (tree : FileTree C) (backups : List UpgradeBackup) : Prop :=
  List.Forall₂ (BackedUp env t tree) backups t.artifacts

theorem BackedUp.keep {b : UpgradeBackup} (backed : BackedUp env t tree b a)
    (kept : ∀ n, t.dir <:+ b.backupPath.tail → tree.node b.backupPath = some n →
      tree'.node b.backupPath = some n) : BackedUp env t tree' b a := by
  obtain ⟨target, ⟨existed, content, mode, mode', original, bits, inside, there⟩ | missing⟩ := backed
  · exact ⟨target, .inl ⟨existed, content, mode, mode', original, bits, inside,
      kept _ inside there⟩⟩
  · exact ⟨target, .inr missing⟩

theorem Backed.frame {backups : List UpgradeBackup} (same : t.SameInside tree tree')
    (backed : Backed env t tree backups) : Backed env t tree' backups :=
  backed.imp fun _ _ one => one.keep fun _ inside => (same _ inside).trans

/-! ### The invariant -/

def hashesOf (artifacts : List UpgradeArtifact) : List (FilePath × String) :=
  artifacts.map fun a => (a.target, a.sha256)

/-- The journal belongs to the transaction. -/
structure Describes (env : Env C) (t : Plan) (j : UpgradeJournal) : Prop where
  id : j.id = t.id
  artifacts : j.artifacts = t.artifacts
  hashes : j.artifactHashes = hashesOf t.artifacts
  auditLog : auditPath env j.auditLog = t.auditLog
  transaction : j.transaction ≠ none

/-- What a journal on disk guarantees. -/
structure Journaled (env : Env C) (t : Transaction C) (s : World C) (j : UpgradeJournal) : Prop where
  describes : Describes env t.toPlan j
  backed : Backed env t s.tree j.backups
  healthy : j.phase = .healthy → s.undone = false → AllNew env t.toPlan s.tree
  committed : j.phase = .committed → AllNew env t.toPlan s.tree

/-- The journal of the transaction is on disk. -/
def OnDisk (env : Env C) (t : Plan) (s : World C) (j : UpgradeJournal) : Prop :=
  ∃ mode, s.tree.node (activeJournal t.stateDir) = some (.file (env.journalText j) mode)

/-- There is no journal and the targets agree, or the journal tells what they can be. -/
def Settled (env : Env C) (t : Transaction C) (s : World C) : Prop :=
  s.tree.node (activeJournal t.stateDir) = none ∧ (AllOld env t s.tree ∨ AllNew env t.toPlan s.tree) ∨
    ∃ j, OnDisk env t.toPlan s j ∧ Journaled env t s j

structure Inv (env : Env C) (stateDir : Path) (s : World C) : Prop where
  dirs : ∀ t ∈ s.begun, t.stateDir = stateDir ∧ Named t.id ∧ s.tree.node t.dir ≠ none
  unique : (s.begun.map fun t => t.id).Nodup
  current : ∀ t, s.current = some t → t.Proper env stateDir ∧ Settled env t s

/-- The transaction has a record of this kind. -/
def Recorded (s : World C) (id : String) (kind : AuditStatus → Bool) : Prop :=
  ∃ e ∈ s.audits, e.record.id = id ∧ kind e.record.status = true

/-- What the audit log says is true, of transactions that began without a foreign journal. -/
structure Truthful (env : Env C) (stateDir : Path) (s : World C) : Prop where
  known : ∀ e ∈ s.audits, ∃ t ∈ s.begun, t.id = e.record.id
  commits : ∀ e ∈ s.audits, e.record.status.commits = true → ∃ t ∈ s.begun,
    t.id = e.record.id ∧ AllNew env t.toPlan e.tree ∧ e.record.artifacts = hashesOf t.artifacts
  exclusive : ∀ id, Recorded s id AuditStatus.commits → ¬ Recorded s id AuditStatus.undoes
  undone : ∀ t, s.current = some t → Recorded s t.id AuditStatus.undoes → s.undone = true
  fresh : s.begun = [] → s.tree.node (activeJournal stateDir) = none

/-- `strict` runs are those whose audit log is looked at. -/
def Holds (env : Env C) (stateDir : Path) (strict : Prop) (s : World C) : Prop :=
  Inv env stateDir s ∧ (strict → Truthful env stateDir s)

/-- The program keeps the invariant at every crash, and `post` holds when it returns. -/
abbrev Maintains (env : Env C) (admits : World C → Op C → Prop) (stateDir : Path) (strict : Prop)
    {α : Type} (p : Routine C α) (post : α → World C → Prop) (s : World C) : Prop :=
  wp (exec env) (.alone admits (Holds env stateDir strict)) p post s

/-! ### What keeps it -/

section

variable (inside : t.SameInside s.tree s'.tree) (targets : t.SameTargets env s.tree s'.tree)
  (undone : s'.undone = s.undone)

include inside targets undone

theorem Journaled.frame {j : UpgradeJournal} (journaled : Journaled env t s j) :
    Journaled env t s' j where
  describes := journaled.describes
  backed := journaled.backed.frame inside
  healthy phase still := (journaled.healthy phase (undone ▸ still)).frame inside targets
  committed phase := (journaled.committed phase).frame inside targets

theorem Settled.frame
    (journal : s'.tree.node (activeJournal t.stateDir) = s.tree.node (activeJournal t.stateDir))
    (settled : Settled env t s) : Settled env t s' := by
  rcases settled with ⟨absent, agree⟩ | ⟨j, ⟨mode, there⟩, journaled⟩
  · exact .inl ⟨journal.trans absent, agree.imp (·.frame targets) (·.frame inside targets)⟩
  · exact .inr ⟨j, ⟨mode, journal.trans there⟩, journaled.frame inside targets undone⟩

end

section Keep

variable {stateDir : Path} {strict : Prop} {t : Transaction C}

theorem Inv.keep (inv : Inv env stateDir s) (begun : s'.begun = s.begun)
    (dirs : ∀ t ∈ s.begun, s'.tree.node t.dir ≠ none)
    (settled : ∀ t, s.current = some t → t.Proper env stateDir → Settled env t s → Settled env t s') :
    Inv env stateDir s' := by
  constructor
  · intro t member
    rw [begun] at member
    obtain ⟨root, named, _⟩ := inv.dirs t member
    exact ⟨root, named, dirs t member⟩
  · rw [begun]
    exact inv.unique
  · intro t current
    rw [World.current, begun] at current
    obtain ⟨proper, before⟩ := inv.current t current
    exact ⟨proper, settled t current proper before⟩

theorem Truthful.keep (truthful : Truthful env stateDir s) (begun : s'.begun = s.begun)
    (audits : s'.audits = s.audits) (undone : s.undone = true → s'.undone = true)
    (fresh : s.begun = [] → s.tree.node (activeJournal stateDir) = none →
      s'.tree.node (activeJournal stateDir) = none) : Truthful env stateDir s' := by
  constructor
  · rw [begun, audits]
    exact truthful.known
  · rw [begun, audits]
    exact truthful.commits
  · simp only [Recorded, audits]
    exact truthful.exclusive
  · simp only [World.current, Recorded, begun, audits]
    intro t current record
    exact undone (truthful.undone t current record)
  · intro none
    rw [begun] at none
    exact fresh none (truthful.fresh none)

theorem Holds.keep {R : FileTree C → FileTree C → Prop} (holds : Holds env stateDir strict s)
    (keeps : Keeps R s s') (dirs : ∀ t ∈ s.begun, s'.tree.node t.dir ≠ none)
    (settled : ∀ t, s.current = some t → t.Proper env stateDir → Settled env t s → Settled env t s')
    (fresh : s.begun = [] →
      s'.tree.node (activeJournal stateDir) = s.tree.node (activeJournal stateDir)) :
    Holds env stateDir strict s' := by
  refine ⟨holds.1.keep keeps.begun dirs settled, fun watched => ?_⟩
  exact (holds.2 watched).keep keeps.begun keeps.audits keeps.undone.trans fun none =>
    (fresh none).trans

theorem World.current_mem (current : s.current = some t) : t ∈ s.begun :=
  mem_of_mem_head? (by rw [← World.current, current]; exact rfl)

theorem World.begun_ne_nil (current : s.current = some t) : s.begun ≠ [] := by
  intro none
  rw [World.current, none] at current
  cases current

theorem Inv.dir_exists (inv : Inv env stateDir s) (current : s.current = some t) :
    s.tree.node (t.id :: stateDir) ≠ none := by
  obtain ⟨root, _, there⟩ := inv.dirs t (World.current_mem current)
  rwa [Plan.dir, root] at there

/-! #### Work on a target -/

section Target

variable {a : UpgradeArtifact} (proper : t.Proper env stateDir) (member : a ∈ t.artifacts)
  (stays : Stays (a.place env) s s')

include proper member stays

theorem Stays.below_stateDir (below : stateDir <:+ q) :
    s'.tree.node q = s.tree.node q :=
  stays.tree.below (proper.target_outside member) below

theorem Stays.target_inside : t.SameInside s.tree s'.tree :=
  fun _ inside => Stays.below_stateDir proper member stays (proper.inside_below inside)

end Target

/-- A transaction whose targets may change: its journal is on disk, and it is not a promise that
they are new. -/
def Opened (env : Env C) (t : Transaction C) (s : World C) : Prop :=
  ∃ j, OnDisk env t.toPlan s j ∧ Describes env t.toPlan j ∧ Backed env t s.tree j.backups ∧
    j.phase ≠ .committed ∧ (j.phase = .healthy → s.undone = true)

theorem Opened.settled (opened : Opened env t s) : Settled env t s := by
  obtain ⟨j, there, describes, backed, uncommitted, healthy⟩ := opened
  refine .inr ⟨j, there, describes, backed, ?_, fun committed => absurd committed uncommitted⟩
  intro phase still
  rw [healthy phase] at still
  cases still

/-- Work on a target leaves the journal and the backups of the transaction. -/
theorem Opened.target (proper : t.Proper env stateDir) (member : a ∈ t.artifacts)
    (opened : Opened env t s) (stays : Stays (a.place env) s s') : Opened env t s' := by
  obtain ⟨j, ⟨mode, there⟩, describes, backed, uncommitted, healthy⟩ := opened
  refine ⟨j, ⟨mode, ?_⟩, describes, ?_, uncommitted, ?_⟩
  · rw [proper.stateDir] at there ⊢
    exact (Stays.below_stateDir proper member stays (suffix_cons _ _)).trans there
  · exact backed.frame (Stays.target_inside proper member stays)
  · rw [stays.undone]
    exact healthy

/-- A target may change while the journal makes no promise about it. -/
theorem Holds.target (holds : Holds env stateDir strict s) (current : s.current = some t)
    (member : a ∈ t.artifacts) (opened : Opened env t s) (stays : Stays (a.place env) s s') :
    Holds env stateDir strict s' := by
  have proper := (holds.1.current t current).1
  apply holds.keep stays
  · intro t' begun
    obtain ⟨root, _, there⟩ := holds.1.dirs t' begun
    rwa [Stays.below_stateDir proper member stays (by rw [Plan.dir, root]; exact suffix_cons _ _)]
  · intro t' current' _ _
    cases current.symm.trans current'
    exact (opened.target proper member stays).settled
  · intro none
    exact absurd none (World.begun_ne_nil current)

/-! #### Work on the journal and the lock -/

/-- The node of `path` is the old one or `n`. -/
structure Swapped (path : Path) (n : Option (Node C)) (s s' : World C) : Prop where
  stays : Stays path s s'
  node : s'.tree.node path = s.tree.node path ∨ s'.tree.node path = n

section Sibling

variable {name : String} (inv : Inv env stateDir s) (stays : Stays (name :: stateDir) s s')

include stays

theorem Stays.sibling_inside (proper : t.Proper env stateDir) : t.SameInside s.tree s'.tree :=
  fun _ inside => stays.tree.outside (proper.inside_sibling inside)

include inv

/-- The state directory exists, so nothing is created above it. -/
theorem Stays.sibling_targets (current : s.current = some t) : t.SameTargets env s.tree s'.tree := by
  intro a member
  have outside := (inv.current t current).1.target_outside member
  have other : a.place env ≠ name :: stateDir := by
    intro same
    rw [same] at outside
    exact outside (suffix_cons name stateDir)
  rcases stays.tree (a.place env) other with same | ⟨missing, _, above⟩
  · exact same
  · -- a new directory above the state directory would have been there already
    rcases suffix_cons_iff.mp above with same | higher
    · exact absurd same other
    · have there := s.tree.node_above (inv.dir_exists current)
        (higher.trans (suffix_cons t.id stateDir)) (by
          intro same
          rw [same] at outside
          exact outside (suffix_cons t.id stateDir))
      rw [missing] at there
      cases there

theorem Stays.sibling_dirs (plain : ¬ Named name) (t : Transaction C) (member : t ∈ s.begun) :
    s'.tree.node t.dir ≠ none := by
  obtain ⟨root, named, there⟩ := inv.dirs t member
  have other : t.dir ≠ name :: stateDir := by
    intro same
    rw [Plan.dir, root, cons.injEq] at same
    exact plain (same.1 ▸ named)
  obtain ⟨n, found⟩ := Option.ne_none_iff_exists'.mp there
  rw [stays.tree.kept other found]
  simp

end Sibling

section

variable (holds : Holds env stateDir strict s)

include holds

/-- Beside the transaction directories, only the journal tells of a transaction. -/
theorem Holds.sibling {name : String} (plain : ¬ Named name) (stays : Stays (name :: stateDir) s s')
    (journal : ∀ t, s.current = some t → t.Proper env stateDir → t.SameInside s.tree s'.tree →
      t.SameTargets env s.tree s'.tree →
      s'.tree.node (activeJournal stateDir) = s.tree.node (activeJournal stateDir) ∨
        Settled env t s') (fresh : s.begun = [] →
      s'.tree.node (activeJournal stateDir) = s.tree.node (activeJournal stateDir)) :
    Holds env stateDir strict s' := by
  have inv := holds.1
  apply holds.keep stays (Stays.sibling_dirs inv stays plain) _ fresh
  intro t current proper settled
  have inside := Stays.sibling_inside stays proper
  have targets := Stays.sibling_targets inv stays current
  rcases journal t current proper inside targets with same | settled'
  · apply settled.frame inside targets stays.undone
    rw [proper.stateDir]
    exact same
  · exact settled'

section

variable (current : s.current = some t)

include current

/-- A journal may be written when what it says is true. -/
theorem Holds.journal {j : UpgradeJournal} {mode : Nat} (journaled : Journaled env t s j)
    (swapped : Swapped (activeJournal stateDir) (some (.file (env.journalText j) mode)) s s') :
    Holds env stateDir strict s' := by
  refine holds.sibling (not_named (by decide)) swapped.stays ?_ fun none =>
    absurd none (World.begun_ne_nil current)
  intro t' current' proper inside targets
  cases current.symm.trans current'
  refine swapped.node.imp_right fun written =>
    .inr ⟨j, ⟨mode, ?_⟩, journaled.frame inside targets swapped.stays.undone⟩
  rw [proper.stateDir]
  exact written

/-- The journal may be removed when the targets agree. -/
theorem Holds.clear (agree : AllOld env t s.tree ∨ AllNew env t.toPlan s.tree)
    (swapped : Swapped (activeJournal stateDir) none s s') : Holds env stateDir strict s' := by
  refine holds.sibling (not_named (by decide)) swapped.stays ?_ fun none =>
    absurd none (World.begun_ne_nil current)
  intro t' current' proper inside targets
  cases current.symm.trans current'
  refine swapped.node.imp_right fun removed =>
    .inl ⟨?_, agree.imp (·.frame targets) (·.frame inside targets)⟩
  rw [proper.stateDir]
  exact removed

end

/-- The lock is beside the journal. -/
theorem Holds.lock (stays : Stays ("upgrade.lock" :: stateDir) s s') :
    Holds env stateDir strict s' := by
  have journal : s'.tree.node (activeJournal stateDir) = s.tree.node (activeJournal stateDir) := by
    apply stays.tree.outside
    intro above
    have same := above.eq_of_length (by simp)
    simp at same
  exact holds.sibling (not_named (by decide)) stays (fun _ _ _ _ _ => .inl journal) fun _ => journal

end

/-! #### Work in the transaction directory -/

section Inside

variable {sub : String} (proper : t.Proper env stateDir) (within : Within (sub :: t.dir) s s')

include proper within

/-- What is done below the transaction directory does not reach a target. -/
theorem Within.targets : t.SameTargets env s.tree s'.tree := by
  intro a member
  apply within.tree
  intro below
  have deep := (suffix_cons sub t.dir).trans below
  rw [proper.dir_eq] at deep
  exact proper.target_outside member ((suffix_cons t.id stateDir).trans deep)

theorem Within.journal :
    s'.tree.node (activeJournal stateDir) = s.tree.node (activeJournal stateDir) := by
  apply within.tree
  intro below
  exact proper.journal_outside ((suffix_cons sub t.dir).trans below)

end Inside

/-- Before there is a journal, work in the transaction directory breaks nothing. -/
theorem Holds.within {sub : String} (holds : Holds env stateDir strict s)
    (current : s.current = some t) (absent : s.tree.node (activeJournal stateDir) = none)
    (old : AllOld env t s.tree) (within : Within (sub :: t.dir) s s') :
    Holds env stateDir strict s' := by
  have inv := holds.1
  have proper := (inv.current t current).1
  apply holds.keep within
  · intro t' member
    obtain ⟨root, _, there⟩ := inv.dirs t' member
    -- transaction directories are not below one another
    rwa [within.tree t'.dir fun below => by
      have long := below.length_le
      simp only [Plan.dir, root, proper.stateDir, length_cons] at long
      omega]
  · intro t' current' _ _
    cases current.symm.trans current'
    refine .inl ⟨?_, .inl (old.frame (Within.targets proper within))⟩
    rw [proper.stateDir, Within.journal proper within, absent]
  · intro none
    exact absurd none (World.begun_ne_nil current)

end Keep

end TrojanGo.Upgrade
