import TrojanGo.Lib.Links
import TrojanGo.Lib.Sequential
import TrojanGo.Texts

/-!
# Installing a certificate and its key

A new pair goes into a version directory, the link `current` is switched to it, and the two stable
paths are made links that lead through `current`. Every system call may fail, and the process may
be killed before any of them.
-/
namespace TrojanGo.Deploy

open Lib Lib.Links

structure Env where
  /-- `tls.X509KeyPair` -/
  x509KeyPair : (certificate key : Bytes) → Except String Unit

/-! ### System calls -/

inductive Op where
  | mkdirAll (path : Path)
  | mkdirTemp (dir : Path)
  | openFile (path : Path)
  | write (path : Path) (content : Bytes)
  | syncDir (dir : Path)
  | remove (path : Path)
  | symlink (target : List String) (path : Path)
  | rename (path new : Path)
  | readlink (path : Path)
  | readDir (dir : Path)
  | removeAll (path : Path)
  deriving DecidableEq

@[reducible] def Out : Op → Type
  | .mkdirTemp _ => Path
  | .readlink _ => List String
  | .readDir _ => List (String × Bool)
  | .mkdirAll _ | .openFile _ | .write _ _ | .syncDir _ | .remove _ | .symlink _ _ | .rename _ _
  | .removeAll _ => Unit

@[reducible] def Res (op : Op) : Type := Except String (Out op)

/-- How a call fares: whether it fails and what the error says, the random part of a temporary
name, how much of the data a failed write has written and what a failed removal leaves. -/
structure Fate where
  ok : Bool := true
  reason : String := ""
  suffix : String := ""
  written : Nat := 0
  left : Path → Bool := fun _ => false

/-- A call that fails by itself or by its fate has no effect. -/
def attempt {α : Type} (fate : Fate) (t : LinkedTree Bytes) (value : α) :
    Option (LinkedTree Bytes) → Except String α × LinkedTree Bytes
  | some t' => if fate.ok then (.ok value, t') else (.error fate.reason, t)
  | none => (.error fate.reason, t)

def query {α : Type} (fate : Fate) (t : LinkedTree Bytes) : Option α → Except String α × LinkedTree Bytes
  | some value => (if fate.ok then .ok value else .error fate.reason, t)
  | none => (.error fate.reason, t)

def perform (fate : Fate) (t : LinkedTree Bytes) : (op : Op) → Res op × LinkedTree Bytes
  | .mkdirAll path => attempt fate t () (mkdirAll t path)
  | .mkdirTemp dir =>
    let path := ("v-" ++ fate.suffix) :: dir
    attempt fate t path ((locate t path).bind fun p => create t p .dir)
  | .openFile path => attempt fate t () ((locate t path).bind fun p => Links.write t p [])
  | .write path content =>
    match (locate t path).bind fun p => Links.write t p (content.take fate.written),
        (locate t path).bind fun p => Links.write t p content with
    | some part, some whole => if fate.ok then (.ok (), whole) else (.error fate.reason, part)
    | _, _ => (.error fate.reason, t)
  | .syncDir dir => query fate t ((resolve t dir).map fun _ => ())
  | .remove path => attempt fate t () ((locate t path).bind (Links.remove t))
  | .symlink target path =>
    attempt fate t () ((locate t path).bind fun p => create t p (.link target))
  | .rename path new =>
    attempt fate t ()
      ((locate t path).bind fun p => (locate t new).bind fun q => Links.rename t p q)
  | .readlink path =>
    query fate t ((locate t path).bind fun p =>
      match entry t p with
      | some (.link target) => some target
      | _ => none)
  | .readDir dir => query fate t ((resolve t dir).map (list t))
  | .removeAll path =>
    match locate t path with
    | none => (.error fate.reason, t)
    | some p =>
      if fate.ok then (.ok (), removeAll t p fun _ => false)
      else (.error fate.reason, removeAll t p fate.left)

def exec (fate : Fate) (t : LinkedTree Bytes) (op : Op) : Option (Res op × LinkedTree Bytes) :=
  some (perform fate t op)

/-! ### The installation -/

abbrev Install := ExceptT String (Prog Op Res)

def act (op : Op) : Install (Out op) := ExceptT.mk (Prog.ask op)

/-- A call whose error is looked at, or ignored. -/
def look (op : Op) : Install (Res op) := ExceptT.lift (Prog.ask op)

/-- Clean up if the program fails. -/
def orElse (p : Install Unit) (cleanup : Op) : Install Unit :=
  ExceptT.mk do
    match ← p.run with
    | .ok () => pure (.ok ())
    | .error e => Prog.ask cleanup >>= fun _ => pure (.error e)

def staged (name : String) : String := "." ++ name ++ "-staged"

def atomicSwapSymlink (dir : Path) (target : List String) (linkName : String) : Install Unit := do
  let tmpLink := staged linkName :: dir
  let _ ← look (.remove tmpLink)
  act (.symlink target tmpLink)
  orElse (act (.rename tmpLink (linkName :: dir))) (.remove tmpLink)
  act (.syncDir dir)

/-- The path is named by its directory and its last element. -/
def ensureCertSymlink (dir : Path) (base : String) (target : List String) : Install Unit := do
  if (← look (.readlink (base :: dir))) = .ok target then return ()
  -- the rest is written out in the source as in `atomicSwapSymlink`
  atomicSwapSymlink dir target base

def removeVersions (store : Path) (keep : String) : List (String × Bool) → Install Unit
  | [] => pure ()
  | (name, isDir) :: rest => do
    if isDir ∧ name ≠ keep ∧ "v-".toList <+: name.toList then
      let _ ← look (.removeAll (name :: store))
      removeVersions store keep rest
    else removeVersions store keep rest

def pruneOldCertVersions (store : Path) (keep : String) : Install Unit := do
  match ← look (.readDir store) with
  | .error _ => return ()
  | .ok entries => removeVersions store keep entries

def storeDir : Path := [".certstore"]

def base (path : Path) : String := path.headD "."

def writeFile (path : Path) (content : Bytes) : Install Unit := do
  act (.openFile path)
  act (.write path content)

def wrap {α : Type} (text : String) (p : Install α) : Install α := p.adapt (text ++ ": " ++ ·)

/-- The part of the installation after which the version directory is in use; it is removed if
this part fails. -/
def installVersion (versionDir : Path) (certificate key : Bytes) : Install Unit := do
  wrap "write versioned certificate" (writeFile ("cert.pem" :: versionDir) certificate)
  wrap "write versioned key" (writeFile ("key.pem" :: versionDir) key)
  wrap "sync certificate version directory" (act (.syncDir versionDir))
  wrap "switch current certificate version"
    (atomicSwapSymlink storeDir [base versionDir] "current")

/-- The stable paths, by their names in the certificate directory. -/
structure Names where
  cert : String
  key : String
  plain : Plain cert ∧ Plain key := by decide
  apart : cert ≠ key ∧ cert ≠ staged key ∧ key ≠ staged cert := by decide

def certTarget : List String := [".certstore", "current", "cert.pem"]

def keyTarget : List String := [".certstore", "current", "key.pem"]

def writeCertificateFiles (env : Env) (names : Names) (certificate key : Bytes) :
    Install Unit := do
  wrap "certificate and private key do not form a valid pair"
    (ExceptT.mk (pure (env.x509KeyPair certificate key)))
  wrap "create certificate directory" (act (.mkdirAll []))
  wrap "create certificate store" (act (.mkdirAll storeDir))
  let versionDir ← wrap "create certificate version directory" (act (.mkdirTemp storeDir))
  orElse (installVersion versionDir certificate key) (.removeAll versionDir)
  wrap "link certificate path" (ensureCertSymlink [] names.cert certTarget)
  wrap "link private key path" (ensureCertSymlink [] names.key keyTarget)
  pruneOldCertVersions storeDir (base versionDir)

/-! ### What the stable paths hold -/

/-- Both stable paths resolve, and to a certificate and its key. -/
def Matches (env : Env) (names : Names) (t : LinkedTree Bytes) : Prop :=
  ∃ certificate ∈ content t [names.cert], ∃ key ∈ content t [names.key],
    env.x509KeyPair certificate key = .ok ()

def CertLinked (names : Names) (t : LinkedTree Bytes) : Prop :=
  entry t [names.cert] = some (.link certTarget)

def KeyLinked (names : Names) (t : LinkedTree Bytes) : Prop :=
  entry t [names.key] = some (.link keyTarget)

instance (names : Names) (t : LinkedTree Bytes) : Decidable (CertLinked names t) :=
  inferInstanceAs (Decidable (_ = _))

instance (names : Names) (t : LinkedTree Bytes) : Decidable (KeyLinked names t) :=
  inferInstanceAs (Decidable (_ = _))

/-- The version that is in use. -/
structure Live (t : LinkedTree Bytes) (version : String) (certificate key : Bytes) : Prop where
  store : entry t storeDir = some .dir
  current : entry t ["current", ".certstore"] = some (.link [version])
  dir : entry t [version, ".certstore"] = some .dir
  cert : entry t ["cert.pem", version, ".certstore"] = some (.file certificate)
  key : entry t ["key.pem", version, ".certstore"] = some (.file key)

/-- The layouts the installation knows: each stable path is a plain file or a link through
`current`, and if both are links then `current` leads to a version directory. -/
structure Documented (names : Names) (t : LinkedTree Bytes) : Prop where
  cert : CertLinked names t ∨ ∃ content, entry t [names.cert] = some (.file content)
  key : KeyLinked names t ∨ ∃ content, entry t [names.key] = some (.file content)
  store : entry t storeDir = none ∨ entry t storeDir = some .dir
  live : CertLinked names t → KeyLinked names t →
    ∃ version certificate key, Plain version ∧ version ≠ staged "current" ∧
      Live t version certificate key

/-- The version directory that `current` leads to is not removed. -/
def KeepsLive (t : LinkedTree Bytes) : Op → Prop
  | .removeAll (version :: dir) =>
    ¬ (dir = storeDir ∧ entry t ["current", ".certstore"] = some (.link [version]))
  | _ => True

instance (t : LinkedTree Bytes) : (op : Op) → Decidable (KeepsLive t op) := fun op => by
  unfold KeepsLive
  split <;> infer_instance

end TrojanGo.Deploy
