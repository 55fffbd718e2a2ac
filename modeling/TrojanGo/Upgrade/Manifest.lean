import Mathlib.Data.List.Nodup
import TrojanGo.Lib.FileTree
import TrojanGo.Texts

/-!
# Upgrade manifests

The manifest of an atomic upgrade and its validation. A file path of the manifest is kept as its
elements between slashes; `FilePath.locate` is the place in the directory tree that it names.
-/
namespace TrojanGo.Upgrade

open Lib List

/-! ### File paths -/

structure FilePath where
  absolute : Bool := false
  elements : List String := []
  deriving DecidableEq, Repr

/-- One element of a walk along a path. `above` holds the elements so far, the last one first. -/
def descend (rooted : Bool) (above : List String) (element : String) : List String :=
  if element = "" ∨ element = "." then above
  else if element = ".." then
    match above with
    | [] => if rooted then [] else [".."]
    | top :: rest => if top = ".." then ".." :: top :: rest else rest
  else element :: above

namespace FilePath

def isEmpty (p : FilePath) : Bool := !p.absolute && p.elements.isEmpty

def text (p : FilePath) : String :=
  (if p.absolute then "/" else "") ++ "/".intercalate p.elements

/-- The lexical shortening of `filepath.Clean`. -/
def clean (p : FilePath) : FilePath :=
  { p with elements := (p.elements.foldl (descend p.absolute) []).reverse }

def isRoot (p : FilePath) : Bool := p.absolute && p.elements.isEmpty

def locate (cwd : Path) (p : FilePath) : Path :=
  p.elements.foldl (descend true) (if p.absolute then [] else cwd)

/-- The last element, as `filepath.Base` gives it for a cleaned path that is not the root. -/
def base (p : FilePath) : String := p.elements.getLastD ""

/-- The extension of the last element, with its dot. -/
def ext (p : FilePath) : String :=
  if p.base.toList.contains '.' then
    String.ofList ('.' :: (p.base.toList.reverse.takeWhile (· ≠ '.')).reverse)
  else ""

end FilePath

/-- An element that a walk simply enters. -/
def Plain (element : String) : Prop := element ≠ "" ∧ element ≠ "." ∧ element ≠ ".."

variable {elements : List String} {a : UpgradeArtifact} {seen : List FilePath}

theorem walk_plain {start : List String} (kept : ∀ e ∈ start, Plain e) :
    ∀ e ∈ elements.foldl (descend true) start, Plain e := by
  induction elements generalizing start with
  | nil => exact kept
  | cons element elements ih =>
    apply ih
    intro e mem
    unfold descend at mem
    split at mem
    · exact kept e mem
    next named =>
      split at mem
      · grind
      next down =>
        rcases mem_cons.mp mem with same | old
        · subst same
          exact ⟨fun empty => named (.inl empty), fun dot => named (.inr dot), down⟩
        · exact kept e old

theorem walk_reverse {rooted : Bool} (plain : ∀ e ∈ elements, Plain e) :
    elements.reverse.foldl (descend rooted) [] = elements := by
  induction elements with
  | nil => rfl
  | cons element elements ih =>
    rw [reverse_cons, foldl_append, ih fun e mem => plain e (.tail element mem)]
    have plain := plain element mem_cons_self
    simp [descend, plain.1, plain.2.1, plain.2.2]

/-- Cleaning an absolute path does not change what it names. -/
theorem locate_clean {p : FilePath} (rooted : p.absolute = true) (cwd : Path) :
    p.clean.locate cwd = p.elements.foldl (descend true) [] := by
  have plain := @walk_plain p.elements [] (by simp)
  simp only [FilePath.locate, FilePath.clean, rooted, if_true]
  exact walk_reverse plain

/-! ### The manifest -/

structure UpgradeArtifact where
  source : FilePath
  target : FilePath
  sha256 : String
  mode : String
  verifyArgs : List String := []
  deriving DecidableEq, Repr

structure UpgradeConfigCheck where
  binaryTarget : FilePath
  service : String
  configTarget : FilePath
  deriving DecidableEq, Repr

structure UpgradeHealthCheck where
  name : String
  type : String
  target : String
  path : String := ""
  expectedStatus : Int := 0
  timeoutSeconds : Int := 0
  deriving DecidableEq, Repr

structure UpgradeManifest where
  version : String
  artifacts : List UpgradeArtifact
  services : List String
  configChecks : List UpgradeConfigCheck := []
  healthChecks : List UpgradeHealthCheck := []
  stateDir : FilePath := {}
  auditLog : FilePath := {}
  healthTimeout : Int := 0
  deriving DecidableEq, Repr

def UpgradeArtifact.path (a : UpgradeArtifact) : Path := a.target.locate []

/-! ### Validation -/

def isLowerHex (c : Char) : Bool := c.isDigit || ('a' ≤ c && c ≤ 'f')

def octalDigit (c : Char) : Option Nat :=
  if '0' ≤ c ∧ c ≤ '7' then some (c.toNat - '0'.toNat) else none

def parseOctal (digits : List Char) : Option Nat :=
  digits.foldlM (fun value c => (octalDigit c).map (8 * value + ·)) 0

def parseFileMode (value : String) : Except String Nat :=
  if value.utf8ByteSize ≠ 4 ∨ value.toList.head? ≠ some '0' then
    .error s!"mode {value.quote} must use four-digit octal form such as 0600"
  else
    match parseOctal value.toList with
    | some parsed =>
      if 0o777 < parsed then .error s!"invalid file mode {value.quote}" else .ok parsed
    | none => .error s!"invalid file mode {value.quote}"

/-- The mode of an artifact; the validation has made sure that it parses. -/
def UpgradeArtifact.fileMode (a : UpgradeArtifact) : Nat :=
  match parseFileMode a.mode with
  | .ok mode => mode
  | .error _ => 0

def validateArtifact (i : Nat) (seenTargets : List FilePath) (artifact : UpgradeArtifact) :
    Except String UpgradeArtifact := do
  let artifact := { artifact with sha256 := (trimSpace artifact.sha256).toLower }
  if artifact.source.isEmpty || artifact.target.isEmpty then
    throw s!"artifact {i} requires source and target"
  if !artifact.target.absolute || artifact.target.clean.isRoot then
    throw s!"artifact {i} target must be an absolute non-root path"
  let artifact := { artifact with target := artifact.target.clean }
  if seenTargets.contains artifact.target then
    throw s!"duplicate artifact target {artifact.target.text}"
  if !artifact.sha256.toList.all isLowerHex || artifact.sha256.length ≠ 64 then
    throw s!"artifact {i} has invalid SHA-256"
  match parseFileMode artifact.mode with
  | .ok _ => pure artifact
  | .error err => throw s!"artifact {i}: {err}"

def validateArtifacts (i : Nat) (seenTargets : List FilePath) :
    List UpgradeArtifact → Except String (List UpgradeArtifact)
  | [] => .ok []
  | artifact :: rest => do
    let checked ← validateArtifact i seenTargets artifact
    let others ← validateArtifacts (i + 1) (checked.target :: seenTargets) rest
    pure (checked :: others)

def configServices : List String := ["gateway", "admin", "worker-control", "data-plane"]

def validateConfigCheck (targets : List FilePath) (check : UpgradeConfigCheck) :
    Except String UpgradeConfigCheck := do
  if check.binaryTarget.isEmpty || check.configTarget.isEmpty || check.service = "" then
    throw "each config check requires binary_target, service and config_target"
  let check := { check with
    binaryTarget := check.binaryTarget.clean
    configTarget := check.configTarget.clean }
  if !targets.contains check.binaryTarget then
    throw s!"config check binary_target {check.binaryTarget.text} is not an artifact target"
  if !targets.contains check.configTarget then
    throw s!"config check config_target {check.configTarget.text} is not an artifact target"
  if configServices.contains check.service then pure check
  else throw s!"unsupported config check service {check.service.quote}"

def isServiceChar (c : Char) : Bool :=
  c.isAlphanum || ['_', '.', '@', '-'].contains c

def validateServices (seenServices : List String) : List String → Except String Unit
  | [] => .ok ()
  | service :: rest => do
    if service = "" || !service.toList.all isServiceChar then
      throw s!"invalid systemd service name {service.quote}"
    if seenServices.contains service then
      throw s!"duplicate systemd service {service.quote}"
    validateServices (service :: seenServices) rest

section Validation

-- The check that the host of an address is a loopback IP.
variable (validateLoopbackAddress : String → Except String Unit)

def validateHealthCheck (check : UpgradeHealthCheck) : Except String Unit := do
  if check.name = "" then throw "health check name is required"
  if check.type ≠ "tcp" ∧ check.type ≠ "http" ∧ check.type ≠ "https" then
    throw s!"unsupported health check type {check.type.quote}"
  validateLoopbackAddress check.target

/-- The manifest as the source leaves it: trimmed, cleaned and with the default timeout. -/
def validateUpgradeManifest (manifest : UpgradeManifest) : Except String UpgradeManifest := do
  let manifest := { manifest with version := trimSpace manifest.version }
  if manifest.version = "" then throw "upgrade manifest version is required"
  if manifest.artifacts.isEmpty then throw "upgrade manifest must contain artifacts"
  let artifacts ← validateArtifacts 0 [] manifest.artifacts
  let configChecks ← manifest.configChecks.mapM
    (validateConfigCheck (artifacts.map UpgradeArtifact.target))
  if manifest.services.isEmpty then throw "upgrade manifest must contain services"
  validateServices [] manifest.services
  manifest.healthChecks.forM (validateHealthCheck validateLoopbackAddress)
  let healthTimeout := if manifest.healthTimeout ≤ 0 then 30 else manifest.healthTimeout
  if 300 < healthTimeout then throw "health_timeout_seconds must not exceed 300"
  pure { manifest with artifacts, configChecks, healthTimeout }

end Validation

/-! ### What validation establishes -/

/-- An artifact that passed: its target is the cleaned text of a place below the root, and its
mode parses. -/
structure UpgradeArtifact.Checked (a : UpgradeArtifact) : Prop where
  target : a.target = { absolute := true, elements := a.path.reverse }
  inside : a.path ≠ []
  mode : parseFileMode a.mode = .ok a.fileMode

theorem UpgradeArtifact.Checked.of_clean {p : FilePath} (rooted : p.absolute = true)
    (below : p.clean.isRoot = false) (clean : a.target = p.clean) {mode : Nat}
    (parsed : parseFileMode a.mode = .ok mode) : a.Checked := by
  have place : a.path = p.elements.foldl (descend true) [] := by
    rw [UpgradeArtifact.path, clean, locate_clean rooted]
  have elements : a.target = { absolute := true, elements := a.path.reverse } := by
    rw [clean, place, FilePath.clean, rooted]
  constructor
  · exact elements
  · intro top
    rw [← clean, elements, top] at below
    cases below
  · simp [UpgradeArtifact.fileMode, parsed]

theorem validateArtifact_ok {i : Nat} {b : UpgradeArtifact}
    (passed : validateArtifact i seen a = .ok b) : b.Checked ∧ b.target ∉ seen := by
  simp only [validateArtifact, bind, Except.bind, pure, Except.pure, throw, throwThe,
    MonadExceptOf.throw] at passed
  split at passed
  · cases passed
  split at passed
  · cases passed
  next shape =>
    split at passed
    · cases passed
    next fresh =>
      split at passed
      · cases passed
      split at passed
      next mode parsed =>
        cases passed
        simp only [Bool.or_eq_true, Bool.not_eq_true', not_or, Bool.not_eq_false,
          Bool.not_eq_true] at shape
        constructor
        · exact .of_clean shape.1 shape.2 rfl parsed
        · simpa using fresh
      · cases passed

theorem validateArtifacts_ok {i : Nat} {as bs : List UpgradeArtifact}
    (passed : validateArtifacts i seen as = .ok bs) :
    bs.length = as.length ∧ (∀ b ∈ bs, b.Checked ∧ b.target ∉ seen) ∧
      (bs.map UpgradeArtifact.target).Nodup := by
  induction as generalizing i seen bs with
  | nil =>
    cases passed
    simp
  | cons a as ih =>
    simp only [validateArtifacts, bind, Except.bind, pure, Except.pure] at passed
    split at passed
    · cases passed
    next b first =>
      split at passed
      · cases passed
      next others rest =>
        cases passed
        obtain ⟨checked, fresh⟩ := validateArtifact_ok first
        obtain ⟨length, kept, distinct⟩ := ih rest
        refine ⟨by simp [length], ?_, ?_⟩
        · grind
        · grind

/-- The artifacts of an accepted manifest: there are some, and they go to different places. -/
structure ProperArtifacts (artifacts : List UpgradeArtifact) : Prop where
  some : artifacts ≠ []
  checked : ∀ a ∈ artifacts, a.Checked
  distinct : (artifacts.map UpgradeArtifact.path).Nodup

theorem validateUpgradeManifest_ok {loopback : String → Except String Unit}
    {raw manifest : UpgradeManifest}
    (accepted : validateUpgradeManifest loopback raw = .ok manifest) :
    ProperArtifacts manifest.artifacts := by
  simp only [validateUpgradeManifest, bind, Except.bind, pure, Except.pure, throw, throwThe,
    MonadExceptOf.throw] at accepted
  split at accepted
  · cases accepted
  split at accepted
  · cases accepted
  next given =>
    split at accepted
    · cases accepted
    next artifacts passed =>
      have same : manifest.artifacts = artifacts := by
        repeat' split at accepted
        all_goals cases accepted
        all_goals rfl
      obtain ⟨length, checked, distinct⟩ := validateArtifacts_ok passed
      rw [same]
      refine ⟨?_, fun a mem => (checked a mem).1, ?_⟩
      · grind
      · -- the targets are the texts of the places
        have texts : artifacts.map UpgradeArtifact.target =
            (artifacts.map UpgradeArtifact.path).map fun p => ⟨true, p.reverse⟩ := by
          rw [map_map]
          exact map_congr_left fun a mem => (checked a mem).1.target
        rw [texts] at distinct
        exact distinct.of_map _

/-- The manifests that validation lets through. -/
def Accepted (loopback : String → Except String Unit) (manifest : UpgradeManifest) : Prop :=
  ∃ raw, validateUpgradeManifest loopback raw = .ok manifest

end TrojanGo.Upgrade
