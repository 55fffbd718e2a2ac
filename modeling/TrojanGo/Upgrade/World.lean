import TrojanGo.Lib.Sequential
import TrojanGo.Upgrade.Manifest

/-!
# The machine under upgrade

An operation can fail before its effect, after it, or in the middle of it; the host answers as its
fate says. The state also keeps books that no operation reads: the transactions that have begun,
every audit record with the tree at its append, and whether a rollback has started.
-/
namespace TrojanGo.Upgrade

open Lib

/-! ### Journal and audit records -/

structure UpgradeBackup where
  target : Path
  backupPath : Path := []
  existed : Bool := false
  mode : Nat := 0
  deriving DecidableEq, Repr

/-- The phases the code writes. A text that is none of these reads as the first one: only
`healthy` and `committed` are asked for. -/
inductive Phase where
  | preparing
  | prepared
  | switched
  | healthy
  | committed
  deriving DecidableEq, Repr

structure UpgradeJournal where
  id : String
  version : String
  phase : Phase
  startedAt : Int
  /-- the transaction directory; absent for the empty string -/
  transaction : Option Path
  artifacts : List UpgradeArtifact
  artifactHashes : List (FilePath × String) := []
  backups : List UpgradeBackup := []
  services : List String
  healthChecks : List UpgradeHealthCheck := []
  healthTimeout : Int := 0
  auditLog : FilePath
  deriving DecidableEq, Repr

inductive AuditStatus where
  | rejected
  | committed
  | rolledBack
  | rollbackFailed
  | committedAfterRecovery
  | recoveredAfterInterruption
  | recoveryFailed
  deriving DecidableEq, Repr

/-- The record says that the new artifacts are in place. -/
def AuditStatus.commits : AuditStatus → Bool
  | .committed | .committedAfterRecovery => true
  | _ => false

/-- The record says that the old files are back. -/
def AuditStatus.undoes : AuditStatus → Bool
  | .rolledBack | .recoveredAfterInterruption => true
  | _ => false

structure UpgradeAuditRecord where
  id : String
  version : String
  status : AuditStatus
  startedAt : Int
  endedAt : Int
  artifacts : List (FilePath × String) := []
  error : String := ""
  deriving DecidableEq, Repr

/-! ### Surroundings -/

/-- What lies outside the program: the working directory, the symbolic links, the umask, the bytes
of files with their digests, and the encodings of the texts it reads and writes. -/
structure Env (C : Type) where
  cwd : Path := []
  /-- where a path leads; no operation of the program makes or removes a link on its way -/
  follow : Path → Path := id
  umask : Nat → Nat := id
  empty : C
  append : C → C → C
  sha256 : C → String
  /-- the JSON text of a journal, and the decoder -/
  journalText : UpgradeJournal → C
  readJournal : C → Except String UpgradeJournal
  journal_roundtrip : ∀ j, readJournal (journalText j) = .ok j
  recordText : UpgradeAuditRecord → C
  /-- the first JSON value of a text as a manifest, and whether anything follows it -/
  readManifest : C → Except String (UpgradeManifest × Bool)
  /-- the text has only white space -/
  blank : C → Bool
  validJSON : C → Except String Unit
  validYAML : C → Except String Unit
  validateLoopbackAddress : String → Except String Unit

/-- The place a path names for calls that do not follow a link at its end. -/
def Env.place {C : Type} (env : Env C) : Path → Path
  | [] => []
  | name :: directory => name :: env.follow directory

/-- The file that the target of an artifact names. -/
abbrev UpgradeArtifact.place {C : Type} (env : Env C) (a : UpgradeArtifact) : Path := env.place a.path

/-- What the manifest says about the transaction that it starts. -/
structure Plan where
  id : String
  stateDir : Path
  artifacts : List UpgradeArtifact
  auditLog : Path

def Plan.dir (plan : Plan) : Path := plan.id :: plan.stateDir

structure Transaction (C : Type) extends Plan where
  /-- the file system in which it began -/
  originals : FileTree C

structure Audit (C : Type) where
  tree : FileTree C
  record : UpgradeAuditRecord

structure World (C : Type) where
  tree : FileTree C
  /-- the transactions so far, the current one first -/
  begun : List (Transaction C) := []
  audits : List (Audit C) := []
  /-- a rollback of the current transaction has started -/
  undone : Bool := false

/-! ### Operations -/

inductive HostCall where
  | runBinary (path : Path) (args : List String)
  | daemonReload
  | restart (service : String)
  | isActive (service : String)
  | health (check : UpgradeHealthCheck)
  deriving DecidableEq

/-- Calls on open files, on a temporary file and on directories that change no path. -/
inductive FileCall where
  | open | chmod | write | sync | close | flock
  deriving DecidableEq

def FileCall.text : FileCall → String
  | .open => "open"
  | .chmod => "chmod"
  | .write => "write"
  | .sync => "sync"
  | .close => "close"
  | .flock => "flock"

/-- The operations that return an error or nothing. -/
inductive Act (C : Type) where
  | mkdir (path : Path)
  | mkdirAll (path : Path)
  | createTemp (directory : Path)
  /-- `O_CREATE | O_EXCL` -/
  | create (path : Path) (mode : Nat)
  | write (path : Path) (content : C)
  /-- `O_CREATE` -/
  | openFile (path : Path) (mode : Nat)
  | append (path : Path) (record : UpgradeAuditRecord)
  /-- the rename of a temporary file with this content and mode -/
  | rename (path : Path) (content : C) (mode : Nat)
  | remove (path : Path)
  | file (call : FileCall) (path : Path)
  | host (call : HostCall)
  /-- the creation of the transaction directory -/
  | begin (plan : Plan)

inductive Op (C : Type) where
  | read (path : Path)
  | lstat (path : Path)
  | act (a : Act C)
  | now
  | getpid
  /-- how many times the health loop waits before its deadline -/
  | waits (seconds : Int)
  /-- nothing; the books note that a rollback starts -/
  | rollback

structure Failure where
  text : String
  /-- `errors.Is(err, os.ErrNotExist)` -/
  missing : Bool := false
  deriving DecidableEq

abbrev Res {C : Type} : Op C → Type
  | .read _ => Except Failure C
  | .lstat _ => Except Failure (Node C)
  | .act _ => Except Failure Unit
  | .now => Int
  | .getpid => Nat
  | .waits _ => Nat
  | .rollback => Unit

inductive Status where
  | ok
  /-- an error without effect -/
  | fails
  /-- an error after the effect -/
  | failsAfter
  /-- an error in the middle of the effect -/
  | torn
  deriving DecidableEq

/-- How an operation goes. -/
structure Fate (C : Type) where
  status : Status := .ok
  error : String := "input/output error"
  /-- what a torn write leaves -/
  junk : Option C := none
  /-- how many directories a torn `MkdirAll` leaves out -/
  depth : Nat := 0
  now : Int := 0
  pid : Nat := 0
  waits : Nat := 0

namespace World

variable {C : Type} (env : Env C)

def current (s : World C) : Option (Transaction C) := s.begun.head?

/-- What an operation does when it does all of it. -/
def effect (s : World C) : Act C → Except Errno (World C)
  | .mkdir path => do return { s with tree := ← s.tree.mkdir path }
  | .mkdirAll path => do return { s with tree := ← s.tree.mkdirAll path }
  | .createTemp directory => do
    match ← s.tree.lstat directory with
    | .dir => return s
    | _ => throw .notDirectory
  | .create path mode => do return { s with tree := ← s.tree.create path env.empty (env.umask mode) }
  | .write path content => do
    return { s with tree := ← s.tree.update path env.empty 0 fun _ => content }
  | .openFile path mode => do
    return { s with tree := ← s.tree.update path env.empty (env.umask mode) id }
  | .append path record => do
    let tree ← s.tree.update path env.empty 0 (env.append · (env.recordText record))
    return { s with tree, audits := ⟨s.tree, record⟩ :: s.audits }
  | .rename path content mode => do return { s with tree := ← s.tree.place path content mode }
  | .remove path => do return { s with tree := ← s.tree.remove path }
  | .file _ _ => return s
  | .host _ => return s
  | .begin plan => do
    let tree ← s.tree.mkdir plan.dir
    return { s with tree, begun := ⟨plan, s.tree⟩ :: s.begun, undone := false }

/-- The part of the effect that an interrupted operation leaves behind. -/
def tornEffect (fate : Fate C) (s : World C) : Act C → Except Errno (World C)
  | .mkdirAll path => do return { s with tree := ← s.tree.mkdirAll (path.drop fate.depth) }
  | .write path _ => do
    return { s with tree := ← s.tree.update path env.empty 0 fun _ => fate.junk.getD env.empty }
  | .append path _ => do
    return { s with
      tree := ← s.tree.update path env.empty 0 (env.append · (fate.junk.getD env.empty)) }
  | _ => return s

end World

/-- The name of the call in its error. -/
def Act.text {C : Type} : Act C → String
  | .mkdir path | .mkdirAll path => s!"mkdir {path.text}"
  | .createTemp directory => s!"open {directory.text}"
  | .create path _ | .openFile path _ => s!"open {path.text}"
  | .write path _ | .append path _ => s!"write {path.text}"
  | .rename path _ _ => s!"rename {path.text}"
  | .remove path => s!"remove {path.text}"
  | .file call path => s!"{call.text} {path.text}"
  | .host _ => "host"
  | .begin plan => s!"mkdir {plan.dir.text}"

def Failure.ofErrno (call : String) (e : Errno) : Failure where
  text := s!"{call}: {e.text}"
  missing := e = .noEntry

def Fate.failure {C : Type} (fate : Fate C) : Failure := { text := fate.error }

/-- A lookup either fails or tells what is there. -/
def answer {C α : Type} (fate : Fate C) (call : String) (found : Except Errno α) :
    Except Failure α :=
  match fate.status, found with
  | .ok, .ok value => .ok value
  | .ok, .error e => .error (.ofErrno call e)
  | _, _ => .error fate.failure

def perform {C : Type} (env : Env C) (fate : Fate C) (s : World C) (a : Act C) :
    Except Failure Unit × World C :=
  match fate.status with
  | .ok =>
    match s.effect env a with
    | .ok s' => (.ok (), s')
    | .error e => (.error (.ofErrno a.text e), s)
  | .fails => (.error fate.failure, s)
  | .failsAfter =>
    match s.effect env a with
    | .ok s' => (.error fate.failure, s')
    | .error e => (.error (.ofErrno a.text e), s)
  | .torn =>
    match s.tornEffect env fate a with
    | .ok s' => (.error fate.failure, s')
    | .error e => (.error (.ofErrno a.text e), s)

def exec {C : Type} (env : Env C) (fate : Fate C) (s : World C) :
    (op : Op C) → Option (Res op × World C)
  | .read path => some (answer fate s!"open {path.text}" (s.tree.read path), s)
  | .lstat path => some (answer fate s!"lstat {path.text}" (s.tree.lstat path), s)
  | .act a => some (perform env fate s a)
  | .now => some (fate.now, s)
  | .getpid => some (fate.pid, s)
  | .waits _ => some (fate.waits, s)
  | .rollback => some ((), { s with undone := true })

end TrojanGo.Upgrade
