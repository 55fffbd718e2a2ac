import TrojanGo.Upgrade.World

/-!
# The upgrade programs

`executeUpgrade` and what it calls. An error is its text. Calls that change nothing and whose
result the source drops are left out.
-/
namespace TrojanGo.Upgrade

open Lib

variable {C : Type}

abbrev Routine (C : Type) := Prog (Op C) Res

abbrev Fallible (C : Type) := ExceptT String (Routine C)

def textual {α : Type} : Except Failure α → Except String α
  | .ok value => .ok value
  | .error e => .error e.text

def act (a : Act C) : Fallible C Unit := ExceptT.mk do return textual (← Prog.ask (.act a))

def readFile (path : Path) : Fallible C C := ExceptT.mk do return textual (← Prog.ask (.read path))

/-- The call itself; its error is part of the result. -/
def ask (op : Op C) : Fallible C (Res op) := ExceptT.lift (Prog.ask op)

/-- A result that the caller looks at itself. -/
def attempt {α : Type} (p : Fallible C α) : Fallible C (Except String α) := ExceptT.lift p.run

/-- `fmt.Errorf("text: %w", err)`. -/
def wrap {α : Type} (text : String) (p : Fallible C α) : Fallible C α :=
  p.adapt fun err => s!"{text}: {err}"

/-- The error of a call, if there is one. -/
def failures : Except String Unit → List String
  | .ok () => []
  | .error e => [e]

/-- `errors.Join`. -/
def joinErrors (texts : List String) : String := "\n".intercalate texts

/-! ### Files -/

def syncDirectoryPath (path : Path) : Fallible C Unit := do
  act (.file .open path)
  act (.file .sync path)

/-- `os.Remove`, where a missing file is no error; tells whether there was one. -/
def unlink (path : Path) : Fallible C Bool := do
  match ← ask (.act (.remove path)) with
  | .ok () => return true
  | .error e => if e.missing then return false else throw e.text

def removeAndSync (path : Path) : Fallible C Unit := do
  let _ ← unlink path
  syncDirectoryPath path.tail

/-- The part of `copyFileSync` after which the target is kept. -/
def copyContent (source target : Path) : Fallible C Unit := do
  let content ← readFile source
  act (.write target content)
  act (.file .sync target)
  act (.file .close target)

def copyFileSync (source target : Path) (mode : Nat) : Fallible C Unit := do
  let _ ← readFile source
  act (.create target mode)
  match ← attempt (copyContent source target) with
  | .ok () => return ()
  | .error e =>
    let _ ← ask (.act (.remove target))
    throw e

variable (env : Env C)

def atomicInstallFile (source target : Path) (mode : Nat) : Fallible C Unit := do
  let directory : Path := (env.place target).tail
  wrap s!"create target directory {Path.text target.tail}" (act (.mkdirAll directory))
  act (.createTemp directory)
  act (.file .chmod directory)
  let content ← readFile source
  act (.file .write directory)
  act (.file .close source)
  act (.file .sync directory)
  act (.file .close directory)
  act (.rename (env.place target) content mode)
  syncDirectoryPath directory

def fileSHA256 (path : Path) : Fallible C String := do
  return env.sha256 (← readFile path)

def writeJSONAtomic (path : Path) (journal : UpgradeJournal) (mode : Nat) : Fallible C Unit := do
  let directory := path.tail
  act (.mkdirAll directory)
  act (.createTemp directory)
  act (.file .chmod directory)
  act (.file .write directory)
  act (.file .sync directory)
  act (.file .close directory)
  act (.rename path (env.journalText journal) mode)
  syncDirectoryPath directory

def defaultUpgradeStateDir : FilePath :=
  { absolute := true, elements := ["var", "lib", "trojan-go", "upgrades"] }

def defaultUpgradeAuditLog : FilePath :=
  { absolute := true, elements := ["var", "log", "trojan-go", "upgrade-audit.jsonl"] }

def auditPath (path : FilePath) : Path :=
  env.follow ((if path.isEmpty then defaultUpgradeAuditLog else path).locate env.cwd)

def appendUpgradeAudit (path : FilePath) (record : UpgradeAuditRecord) : Fallible C Unit := do
  let path := auditPath env path
  act (.mkdirAll path.tail)
  act (.openFile path 0o600)
  act (.append path record)
  act (.file .sync path)
  act (.file .close path)
  syncDirectoryPath path.tail

/-! ### Services -/

def hostFailures : List HostCall → Routine C (List String)
  | [] => return []
  | call :: calls => do
    let answered ← (act (.host call)).run
    return failures answered ++ (← hostFailures calls)

/-- One round asks all services and all checks; the loop ends with a clean round or with the
deadline. -/
def healthRounds (calls : List HostCall) : Nat → Fallible C Unit
  | 0 => do
    let failed ← ExceptT.lift (hostFailures calls)
    if failed.isEmpty then return ()
    else throw (joinErrors
      ("health check deadline exceeded: context deadline exceeded" :: failed))
  | waits + 1 => do
    let failed ← ExceptT.lift (hostFailures calls)
    if failed.isEmpty then return () else healthRounds calls waits

def checkUpgradeHealth (waits : Nat) (services : List String) (checks : List UpgradeHealthCheck) :
    Fallible C Unit :=
  healthRounds (services.map .isActive ++ checks.map .health) waits

def restartServices : List String → Fallible C Unit
  | [] => return ()
  | service :: services => do
    act (.host (.restart service))
    restartServices services

def restartAndCheck (seconds : Int) (services : List String) (checks : List UpgradeHealthCheck) :
    Fallible C Unit := do
  let waits ← ask (.waits seconds)
  act (.host .daemonReload)
  restartServices services
  checkUpgradeHealth waits services checks

/-! ### Staging and backups -/

/-- `%03d`. -/
def pad3 (i : Nat) : String :=
  String.ofList (List.replicate (3 - (toString i).length) '0') ++ toString i

def validateStagedConfig (path : Path) (target : FilePath) : Fallible C Unit := do
  let extension := target.ext.toLower
  if extension ≠ ".yaml" ∧ extension ≠ ".yml" ∧ extension ≠ ".json" then return ()
  let data ← wrap s!"read staged config {target.text}" (readFile path)
  if env.blank data then throw s!"staged config {target.text} is empty"
  if extension = ".json" then
    wrap s!"validate staged JSON {target.text}" (ExceptT.mk (pure (env.validJSON data)))
  else
    wrap s!"validate staged YAML {target.text}" (ExceptT.mk (pure (env.validYAML data)))

def stagedPath (transactionDir : Path) (i : Nat) : Path := pad3 i :: "staging" :: transactionDir

def backupPath (transactionDir : Path) (i : Nat) : Path := pad3 i :: "backup" :: transactionDir

def verifyArguments (artifact : UpgradeArtifact) : List String :=
  if artifact.verifyArgs.isEmpty && artifact.target.base == "trojan-go" then ["-version"]
  else artifact.verifyArgs

/-- The staged file, and the target with its digest. -/
def stageArtifact (transactionDir manifestDir : Path) (i : Nat) (artifact : UpgradeArtifact) :
    Fallible C (Path × FilePath × String) := do
  let source : Path := artifact.source.locate manifestDir
  let staged : Path := stagedPath transactionDir i
  match ← ask (.lstat (env.place source)) with
  | .error e => throw s!"inspect artifact source {source.text}: {e.text}"
  | .ok (.file _ _) =>
    wrap s!"stage artifact {source.text}" (copyFileSync (env.place source) staged artifact.fileMode)
    let digest ← fileSHA256 env staged
    if digest ≠ artifact.sha256 then
      throw s!"artifact {source.text} SHA-256 mismatch: got {digest}, expected {artifact.sha256}"
    validateStagedConfig env staged artifact.target
    if verifyArguments artifact ≠ [] then
      wrap s!"artifact self-check {artifact.target.text}"
        (act (.host (.runBinary staged (verifyArguments artifact))))
    return (staged, artifact.target, digest)
  | .ok _ => throw s!"artifact source {source.text} must be a regular file"

def stageArtifacts (transactionDir manifestDir : Path) :
    Nat → List UpgradeArtifact → Fallible C (List (Path × FilePath × String))
  | _, [] => return []
  | i, artifact :: artifacts => do
    let staged ← stageArtifact env transactionDir manifestDir i artifact
    return staged :: (← stageArtifacts transactionDir manifestDir (i + 1) artifacts)

def stageUpgradeArtifacts (transactionDir manifestDir : Path) (artifacts : List UpgradeArtifact) :
    Fallible C (List Path × List (FilePath × String)) := do
  let stagingDir := "staging" :: transactionDir
  wrap "create staging directory" (act (.mkdir stagingDir))
  let staged ← stageArtifacts env transactionDir manifestDir 0 artifacts
  wrap "sync staging directory" (syncDirectoryPath stagingDir)
  return staged.unzip

def pathOverrides (check : UpgradeConfigCheck) (staged : List (UpgradeArtifact × Path)) :
    List String :=
  staged.flatMap fun (artifact, path) =>
    if artifact.target = check.binaryTarget ∨ artifact.target = check.configTarget then []
    else ["--path-override", artifact.target.text, path.text]

def stagedFor (staged : List (UpgradeArtifact × Path)) (target : FilePath) : Path :=
  match staged.reverse.find? fun (artifact, _) => artifact.target = target with
  | some (_, path) => path
  | none => []

def configCheck (staged : List (UpgradeArtifact × Path)) (check : UpgradeConfigCheck) :
    Fallible C Unit :=
  let config := stagedFor staged check.configTarget.clean
  let overrides := if check.service = "gateway" then pathOverrides check staged else []
  wrap s!"{check.service} config self-check"
    (act (.host (.runBinary (stagedFor staged check.binaryTarget.clean)
      (["config-check", "--service", check.service, "--config", config.text] ++ overrides))))

def runUpgradeConfigChecks (staged : List (UpgradeArtifact × Path)) :
    List UpgradeConfigCheck → Fallible C Unit
  | [] => return ()
  | check :: checks => do
    configCheck staged check
    runUpgradeConfigChecks staged checks

/-- The type in a mode text. -/
def fileType : Node C → String
  | .dir => "d---------"
  | .file _ _ => "----------"
  | .other => "?---------"

def backupTarget (transactionDir : Path) (i : Nat) (artifact : UpgradeArtifact) :
    Fallible C UpgradeBackup := do
  let target : Path := artifact.path
  match ← ask (.lstat (env.place target)) with
  | .error e =>
    if e.missing then return { target }
    else throw s!"inspect upgrade target {target.text}: {e.text}"
  | .ok (.file _ mode) =>
    let path := backupPath transactionDir i
    wrap s!"backup {target.text}" (copyFileSync (env.place target) path (mode % 0o1000))
    return { target, backupPath := path, existed := true, mode := mode % 0o1000 }
  | .ok found =>
    throw s!"upgrade target {target.text} must be a regular file, refusing to replace {fileType found}"

def backupTargets (transactionDir : Path) :
    Nat → List UpgradeArtifact → Fallible C (List UpgradeBackup)
  | _, [] => return []
  | i, artifact :: artifacts => do
    let backup ← backupTarget env transactionDir i artifact
    return backup :: (← backupTargets transactionDir (i + 1) artifacts)

def backupUpgradeTargets (transactionDir : Path) (artifacts : List UpgradeArtifact) :
    Fallible C (List UpgradeBackup) := do
  let backupDir := "backup" :: transactionDir
  wrap "create backup directory" (act (.mkdir backupDir))
  let backups ← backupTargets env transactionDir 0 artifacts
  wrap "sync backup directory" (syncDirectoryPath backupDir)
  return backups

/-! ### Switching and rolling back -/

def applyUpgrade : List (UpgradeArtifact × Path) → Fallible C Unit
  | [] => return ()
  | (artifact, staged) :: rest => do
    wrap s!"switch artifact {artifact.target.text}"
      (atomicInstallFile env staged artifact.path artifact.fileMode)
    applyUpgrade rest

def restoreBackup (backup : UpgradeBackup) : Fallible C Unit :=
  if backup.existed then
    wrap s!"restore {backup.target.text}"
      (atomicInstallFile env backup.backupPath backup.target backup.mode)
  else do
    let removed ← wrap s!"remove new target {backup.target.text}" (unlink (env.place backup.target))
    if removed then syncDirectoryPath (env.place backup.target).tail

/-- Every backup is tried; the errors are collected. -/
def restoreBackups : List UpgradeBackup → Routine C (List String)
  | [] => return []
  | backup :: backups => do
    let restored ← (restoreBackup env backup).run
    let restoreErrors ← restoreBackups backups
    match restored with
    | .ok () => return restoreErrors
    | .error e => return e :: restoreErrors

def healthTimeout (journal : UpgradeJournal) : Int :=
  if journal.healthTimeout ≤ 0 then 30 else journal.healthTimeout

def rollbackUpgrade (journal : UpgradeJournal) : Fallible C Unit := do
  ask .rollback
  let restoreErrors ← ExceptT.lift (restoreBackups env journal.backups.reverse)
  if restoreErrors ≠ [] then throw (joinErrors restoreErrors)
  restartAndCheck (healthTimeout journal) journal.services journal.healthChecks

/-! ### Recovery -/

/-- The files of a healthy upgrade stay; the interrupted commit is finished. -/
def resumeCommit (activeJournal : Path) (journal : UpgradeJournal) : Fallible C Unit := do
  let endedAt ← ask .now
  wrap "resume healthy upgrade audit commit" <| appendUpgradeAudit env journal.auditLog
    { id := journal.id, version := journal.version, status := .committedAfterRecovery,
      startedAt := journal.startedAt, endedAt, artifacts := journal.artifactHashes }
  wrap "persist recovered committed upgrade journal"
    (writeJSONAtomic env activeJournal { journal with phase := .committed } 0o600)
  removeAndSync activeJournal

/-- The old files are put back. -/
def undoInterrupted (activeJournal : Path) (journal : UpgradeJournal) (recoveryCause : List String)
    : Fallible C Unit := do
  if journal.backups.length ≠ journal.artifacts.length ∨ journal.transaction = none then
    throw "active upgrade journal is incomplete; refusing automatic recovery"
  let rolledBack ← attempt (rollbackUpgrade env journal)
  let endedAt ← ask .now
  match rolledBack with
  | .error rollbackErr =>
    let audited ← attempt (appendUpgradeAudit env journal.auditLog
      { id := journal.id, version := journal.version, status := .recoveryFailed,
        startedAt := journal.startedAt, endedAt,
        error := joinErrors (recoveryCause ++ [rollbackErr]) })
    throw (joinErrors (rollbackErr :: failures audited))
  | .ok () =>
    let audited ← attempt (appendUpgradeAudit env journal.auditLog
      { id := journal.id, version := journal.version, status := .recoveredAfterInterruption,
        startedAt := journal.startedAt, endedAt, error := joinErrors recoveryCause })
    let cleared ← attempt (removeAndSync activeJournal)
    match cleared, audited with
    | .ok (), .ok () => return ()
    | _, _ => throw (joinErrors (failures cleared ++ failures audited))

def recoverJournal (activeJournal : Path) (journal : UpgradeJournal) : Fallible C Unit := do
  if journal.phase = .committed then removeAndSync activeJournal
  else if journal.phase = .healthy then
    let waits ← ask (.waits (healthTimeout journal))
    match ← attempt (checkUpgradeHealth waits journal.services journal.healthChecks) with
    | .ok () => resumeCommit env activeJournal journal
    | .error healthErr =>
      undoInterrupted env activeJournal journal
        [s!"previously healthy upgrade failed recovery health check: {healthErr}"]
  else undoInterrupted env activeJournal journal []

def recoverInterruptedUpgrade (activeJournal : Path) : Fallible C Unit := do
  match ← ask (.read activeJournal) with
  | .error e => if e.missing then return () else throw e.text
  | .ok data =>
    match env.readJournal data with
    | .error e => throw s!"decode active upgrade journal: {e}"
    | .ok journal => recoverJournal env activeJournal journal

/-! ### The upgrade -/

def acquireUpgradeLock (path : Path) : Fallible C Unit := do
  wrap "open upgrade lock" (act (.openFile path 0o600))
  wrap "another upgrade is already running" (act (.file .flock path))

/-- From the prepared journal to the healthy one. -/
def switchUpgrade (activeJournal : Path) (journal : UpgradeJournal)
    (staged : List (UpgradeArtifact × Path)) : Fallible C Unit := do
  applyUpgrade env staged
  writeJSONAtomic env activeJournal { journal with phase := .switched } 0o600
  restartAndCheck journal.healthTimeout journal.services journal.healthChecks
  wrap "persist healthy upgrade journal"
    (writeJSONAtomic env activeJournal { journal with phase := .healthy } 0o600)

def commitUpgrade (activeJournal : Path) (journal : UpgradeJournal) : Fallible C Unit := do
  let endedAt ← ask .now
  wrap "upgrade is healthy but audit commit failed; active journal retained" <|
    appendUpgradeAudit env journal.auditLog
      { id := journal.id, version := journal.version, status := .committed,
        startedAt := journal.startedAt, endedAt, artifacts := journal.artifactHashes }
  wrap "persist committed upgrade journal"
    (writeJSONAtomic env activeJournal { journal with phase := .committed } 0o600)
  wrap "clear committed upgrade journal" (removeAndSync activeJournal)

def abandonUpgrade (activeJournal : Path) (journal : UpgradeJournal) (applyErr : String) :
    Fallible C Unit := do
  let rolledBack ← attempt (rollbackUpgrade env journal)
  let endedAt ← ask .now
  match rolledBack with
  | .error rollbackErr =>
    let audited ← attempt (appendUpgradeAudit env journal.auditLog
      { id := journal.id, version := journal.version, status := .rollbackFailed,
        startedAt := journal.startedAt, endedAt, artifacts := journal.artifactHashes,
        error := applyErr })
    throw (joinErrors
      (s!"upgrade failed: {applyErr}" :: s!"rollback failed: {rollbackErr}" :: failures audited))
  | .ok () =>
    let audited ← attempt (appendUpgradeAudit env journal.auditLog
      { id := journal.id, version := journal.version, status := .rolledBack,
        startedAt := journal.startedAt, endedAt, artifacts := journal.artifactHashes,
        error := applyErr })
    match ← attempt (removeAndSync activeJournal) with
    | .ok () =>
      throw (joinErrors
        (s!"upgrade failed and was rolled back: {applyErr}" :: failures audited))
    | .error err =>
      throw (joinErrors (s!"upgrade failed: {applyErr}" ::
        s!"rollback failed: clear rolled-back upgrade journal: {err}" :: failures audited))

/-- A transaction that stops before anything was switched. -/
def rejectUpgrade (journal : UpgradeJournal) (hashes : List (FilePath × String)) (err : String) :
    Fallible C Unit := do
  let endedAt ← ask .now
  let _ ← attempt (appendUpgradeAudit env journal.auditLog
    { id := journal.id, version := journal.version, status := .rejected,
      startedAt := journal.startedAt, endedAt, artifacts := hashes, error := err })
  throw err

def stageAndCheck (manifest : UpgradeManifest) (manifestDir transactionDir : Path) :
    Fallible C (List Path × List (FilePath × String)) := do
  let (staged, hashes) ←
    stageUpgradeArtifacts env transactionDir manifestDir manifest.artifacts
  runUpgradeConfigChecks (manifest.artifacts.zip staged) manifest.configChecks
  return (staged, hashes)

/-- What follows the creation of the transaction directory. -/
def runTransaction (manifest : UpgradeManifest) (manifestDir stateDir : Path)
    (journal : UpgradeJournal) : Fallible C Unit := do
  let activeJournal := "active.json" :: stateDir
  let transactionDir := journal.id :: stateDir
  match ← attempt (stageAndCheck env manifest manifestDir transactionDir) with
  | .error err => rejectUpgrade env journal [] err
  | .ok (staged, hashes) =>
    match ← attempt (backupUpgradeTargets env transactionDir manifest.artifacts) with
    | .error err => rejectUpgrade env journal hashes err
    | .ok backups =>
      let journal := { journal with artifactHashes := hashes, backups, phase := .prepared }
      wrap "persist prepared upgrade journal" (writeJSONAtomic env activeJournal journal 0o600)
      match ← attempt (switchUpgrade env activeJournal journal (manifest.artifacts.zip staged)) with
      | .ok () => commitUpgrade env activeJournal journal
      | .error applyErr => abandonUpgrade env activeJournal journal applyErr

def UpgradeManifest.statePath (manifest : UpgradeManifest) : Path :=
  env.follow
    ((if manifest.stateDir.isEmpty then defaultUpgradeStateDir else manifest.stateDir).locate env.cwd)

def UpgradeManifest.auditLogOrDefault (manifest : UpgradeManifest) : FilePath :=
  if manifest.auditLog.isEmpty then defaultUpgradeAuditLog else manifest.auditLog

def transactionID (startedAt : Int) (pid : Nat) : String := s!"{startedAt}-{pid}"

/-- What follows the recovery of an interrupted upgrade. -/
def startTransaction (manifest : UpgradeManifest) (manifestDir stateDir : Path)
    (auditLog : FilePath) : Fallible C Unit := do
  let startedAt ← ask .now
  let pid ← ask .getpid
  let id := transactionID startedAt pid
  wrap "create upgrade transaction directory" (act (.begin
    { id, stateDir, artifacts := manifest.artifacts, auditLog := auditPath env auditLog }))
  runTransaction env manifest manifestDir stateDir
    { id, version := manifest.version, phase := .preparing, startedAt,
      transaction := some (id :: stateDir), artifacts := manifest.artifacts,
      services := manifest.services, healthChecks := manifest.healthChecks,
      healthTimeout := manifest.healthTimeout, auditLog }

/-- `executeUpgrade` with the manifest already loaded. -/
def executeManifest (manifest : UpgradeManifest) (manifestDir : Path) : Fallible C Unit := do
  let stateDir := manifest.statePath env
  wrap "create upgrade state directory" (act (.mkdirAll stateDir))
  acquireUpgradeLock ("upgrade.lock" :: stateDir)
  wrap "recover interrupted upgrade" (recoverInterruptedUpgrade env ("active.json" :: stateDir))
  startTransaction env manifest manifestDir stateDir manifest.auditLogOrDefault

def loadUpgradeManifest (path : FilePath) : Fallible C (UpgradeManifest × Path) := do
  let absolute := path.locate env.cwd
  let data ← wrap "read upgrade manifest" (readFile (env.follow absolute))
  let (manifest, more) ← wrap "decode upgrade manifest" (ExceptT.mk (pure (env.readManifest data)))
  if more then throw "upgrade manifest must contain exactly one JSON object"
  let manifest ← ExceptT.mk
    (pure (validateUpgradeManifest env.validateLoopbackAddress manifest))
  return (manifest, absolute.tail)

def executeUpgrade (manifestPath : FilePath) : Fallible C Unit := do
  let (manifest, manifestDir) ← loadUpgradeManifest env manifestPath
  executeManifest env manifest manifestDir

end TrojanGo.Upgrade
