import Mathlib.Data.Finmap

/-!
# Directory trees

A finite map from paths to nodes in which every node lies in a directory. `Alters p` is the frame
of an operation on the path `p`, up to directories that are created above `p`.
-/
namespace TrojanGo.Lib

/-- A path from the root, its last element first: the parent of `name :: parent` is `parent`,
and the directories above `p` are the proper suffixes of `p`. -/
abbrev Path := List String

def Path.text (p : Path) : String := "/" ++ "/".intercalate p.reverse

/-- What a path can name: a directory, a regular file with its mode bits, or something else. -/
inductive Node (C : Type) : Type where
  | dir
  | file (content : C) (mode : Nat)
  | other
  deriving DecidableEq

instance {C : Type} : (n : Option (Node C)) → Decidable (n = some .dir)
  | some .dir => isTrue rfl
  | some (.file _ _) => isFalse (by simp)
  | some .other => isFalse (by simp)
  | none => isFalse (by simp)

inductive Errno : Type where
  | noEntry | exists | notDirectory | isDirectory | notEmpty | busy | invalid
  deriving DecidableEq

def Errno.text : Errno → String
  | .noEntry => "no such file or directory"
  | .exists => "file exists"
  | .notDirectory => "not a directory"
  | .isDirectory => "is a directory"
  | .notEmpty => "directory not empty"
  | .busy => "device or resource busy"
  | .invalid => "invalid argument"

structure FileTree (C : Type) where
  nodes : Finmap fun _ : Path => Node C
  tree : ∀ p ∈ nodes.keys, p.tail = [] ∨ nodes.lookup p.tail = some .dir

namespace FileTree

variable {C : Type}

/-- The root is always a directory. -/
def node (t : FileTree C) (p : Path) : Option (Node C) :=
  if p = [] then some .dir else t.nodes.lookup p

theorem node_parent (t : FileTree C) {name : String} {parent : Path}
    (found : t.node (name :: parent) ≠ none) : t.node parent = some .dir := by
  have mem : name :: parent ∈ t.nodes.keys := by
    rw [Finmap.mem_keys, ← Finmap.lookup_isSome]
    exact Option.isSome_iff_ne_none.mpr found
  rcases t.tree _ mem with top | below
  · simp only [List.tail_cons] at top
    subst top
    rfl
  · cases parent with
    | nil => rfl
    | cons name parent => exact below

variable {p q : Path}

/-- Whatever exists has directories above it. -/
theorem node_above (t : FileTree C) (found : t.node p ≠ none) (above : q <:+ p) (proper : q ≠ p) :
    t.node q = some .dir := by
  induction p with
  | nil => exact absurd (List.suffix_nil.mp above) proper
  | cons name parent ih =>
    have up := t.node_parent found
    rcases List.suffix_cons_iff.mp above with same | higher
    · exact absurd same proper
    · grind

/-! ### Changing one node -/

def set (t : FileTree C) (name : String) (parent : Path) (n : Node C)
    (up : t.node parent = some .dir) (down : n = .dir ∨ t.node (name :: parent) ≠ some .dir) :
    FileTree C where
  nodes := t.nodes.insert (name :: parent) n
  tree := by
    intro q member
    rw [Finmap.mem_keys, Finmap.mem_insert] at member
    rcases member with same | old
    · subst same
      cases parent with
      | nil => exact .inl rfl
      | cons higher rest =>
        right
        have fresh : higher :: rest ≠ name :: higher :: rest := by simp
        rw [List.tail_cons, Finmap.lookup_insert_of_ne _ fresh]
        exact up
    · rcases t.tree q (Finmap.mem_keys.mpr old) with top | below
      · exact .inl top
      · right
        by_cases inside : q.tail = name :: parent
        · rw [inside] at below ⊢
          rw [Finmap.lookup_insert]
          rcases down with same | file
          · rw [same]
          · exact absurd below file
        · rw [Finmap.lookup_insert_of_ne _ inside]
          exact below

variable {t : FileTree C}

variable {n : Node C} {root : Path} {content : C} {mode : Nat}

theorem node_set {name : String} {parent : Path} {up down} (q : Path) :
    (t.set name parent n up down).node q = if q = name :: parent then some n else t.node q := by
  grind [set, node, Finmap.lookup_insert, Finmap.lookup_insert_of_ne]

def unset (t : FileTree C) (p : Path) (empty : ∀ q ∈ t.nodes.keys, q.tail ≠ p) : FileTree C where
  nodes := t.nodes.erase p
  tree := by
    intro q member
    rw [Finmap.mem_keys, Finmap.mem_erase] at member
    rw [Finmap.lookup_erase_ne (empty q (Finmap.mem_keys.mpr member.2))]
    exact t.tree q (Finmap.mem_keys.mpr member.2)

theorem node_unset {empty} (inside : p ≠ []) (q : Path) :
    (t.unset p empty).node q = if q = p then none else t.node q := by
  grind [unset, node, Finmap.lookup_erase, Finmap.lookup_erase_ne]

/-! ### System calls -/

/-- Why a path that names nothing cannot be opened. -/
def fault (t : FileTree C) : Path → Errno
  | [] => .busy
  | _ :: parent =>
    match t.node parent with
    | some .dir => .noEntry
    | some _ => .notDirectory
    | none => t.fault parent

def read (t : FileTree C) (p : Path) : Except Errno C :=
  match t.node p with
  | some (.file content _) => .ok content
  | some .dir => .error .isDirectory
  | some .other => .error .invalid
  | none => .error (t.fault p)

def lstat (t : FileTree C) (p : Path) : Except Errno (Node C) :=
  match t.node p with
  | some n => .ok n
  | none => .error (t.fault p)

/-- Put a regular file at a path, in place of anything that is not a directory. -/
def place (t : FileTree C) (p : Path) (content : C) (mode : Nat) : Except Errno (FileTree C) :=
  match p with
  | [] => .error .isDirectory
  | name :: parent =>
    if up : t.node parent = some .dir then
      if down : t.node (name :: parent) = some .dir then .error .isDirectory
      else .ok (t.set name parent (.file content mode) up (.inr down))
    else .error (t.fault (name :: parent))

/-- Open with `O_CREATE | O_EXCL`. -/
def create (t : FileTree C) (p : Path) (content : C) (mode : Nat) : Except Errno (FileTree C) :=
  match t.node p with
  | some _ => .error .exists
  | none => t.place p content mode

def mkdir (t : FileTree C) (p : Path) : Except Errno (FileTree C) :=
  match p with
  | [] => .error .exists
  | name :: parent =>
    match t.node (name :: parent) with
    | some _ => .error .exists
    | none =>
      if up : t.node parent = some .dir then .ok (t.set name parent .dir up (.inl rfl))
      else .error (t.fault (name :: parent))

def mkdirAll (t : FileTree C) : Path → Except Errno (FileTree C)
  | [] => .ok t
  | name :: parent =>
    match t.node (name :: parent) with
    | some .dir => .ok t
    | some _ => .error .notDirectory
    | none =>
      match t.mkdirAll parent with
      | .ok t' => t'.mkdir (name :: parent)
      | .error e => .error e

/-- Change the content of a file, or create it. -/
def update (t : FileTree C) (p : Path) (fresh : C) (mode : Nat) (f : C → C) :
    Except Errno (FileTree C) :=
  match t.node p with
  | some (.file content mode') => t.place p (f content) mode'
  | some .dir => .error .isDirectory
  | some .other => .error .invalid
  | none => t.place p (f fresh) mode

/-- Unlink a file or remove an empty directory. -/
def remove (t : FileTree C) (p : Path) : Except Errno (FileTree C) :=
  match t.node p with
  | none => .error (t.fault p)
  | some _ =>
    if p = [] then .error .busy
    else if empty : ∀ q ∈ t.nodes.keys, q.tail ≠ p then .ok (t.unset p empty)
    else .error .notEmpty

/-! ### What the calls change -/

/-- Nodes of paths other than `p` are kept; directories above `p` may be new. -/
def Alters (p : Path) (t t' : FileTree C) : Prop :=
  ∀ q, q ≠ p → t'.node q = t.node q ∨ (t.node q = none ∧ t'.node q = some .dir ∧ q <:+ p)

instance : IsPreorder (FileTree C) (Alters p) where
  refl _ _ _ := .inl rfl
  trans _ _ _ first second q other := by grind [Alters]

variable {t' t'' : FileTree C}

/-- What exists elsewhere is kept. -/
theorem Alters.kept (alters : Alters p t t') (other : q ≠ p) (found : t.node q = some n) :
    t'.node q = some n := by
  grind [Alters]

/-- What is not above `p` is kept, whether it exists or not. -/
theorem Alters.outside (alters : Alters p t t') (outside : ¬ q <:+ p) : t'.node q = t.node q := by
  have other : q ≠ p := by
    intro same
    exact outside (same ▸ List.suffix_rfl)
  rcases alters q other with same | ⟨_, _, above⟩
  · exact same
  · exact absurd above outside

/-- Nothing changes below a directory that `p` is not below. -/
theorem Alters.below (alters : Alters p t t') (away : ¬ root <:+ p) (below : root <:+ q) :
    t'.node q = t.node q :=
  alters.outside fun above => away (below.trans above)

/-- Only the node of `p` changes. -/
def Replaces (p : Path) (t t' : FileTree C) : Prop := ∀ q, q ≠ p → t'.node q = t.node q

theorem Replaces.alters (replaces : Replaces p t t') :
    Alters p t t' :=
  fun q other => .inl (replaces q other)

instance : IsPreorder (FileTree C) (Replaces p) where
  refl _ _ _ := rfl
  trans _ _ _ first second q other := (second q other).trans (first q other)

/-- Nothing changes but below a directory. -/
def Confined (root : Path) (t t' : FileTree C) : Prop := ∀ q, ¬ root <:+ q → t'.node q = t.node q

instance : IsPreorder (FileTree C) (Confined root) where
  refl _ _ _ := rfl
  trans _ _ _ first second q outside := (second q outside).trans (first q outside)

/-- What exists is kept. -/
def Grows (t t' : FileTree C) : Prop := ∀ q n, t.node q = some n → t'.node q = some n

theorem Grows.refl (t : FileTree C) : Grows t t := fun _ _ => id

theorem Grows.trans (first : Grows t t') (second : Grows t' t'') :
    Grows t t'' :=
  fun q n found => second q n (first q n found)

theorem Alters.grows (alters : Alters p t t') (missing : t.node p = none) : Grows t t' := by
  grind [Alters, Grows]

theorem place_ok (placed : t.place p content mode = .ok t') :
    t'.node p = some (.file content mode) ∧ Replaces p t t' := by
  unfold place at placed
  split at placed
  · cases placed
  split at placed
  · split at placed
    · cases placed
    · cases placed
      constructor
      · simp [node_set]
      · intro q other
        simp [node_set, other]
  · cases placed

theorem create_ok (created : t.create p content mode = .ok t') :
    t.node p = none ∧ t'.node p = some (.file content mode) ∧ Replaces p t t' := by
  grind [create, place_ok]

theorem mkdir_ok (made : t.mkdir p = .ok t') :
    t.node p = none ∧ t'.node p = some .dir ∧ Replaces p t t' := by
  unfold mkdir at made
  split at made
  · cases made
  split at made
  · cases made
  next missing =>
    split at made
    · cases made
      refine ⟨missing, by simp [node_set], ?_⟩
      intro q other
      simp [node_set, other]
    · cases made

theorem update_ok {fresh : C} {f : C → C} (updated : t.update p fresh mode f = .ok t') :
    (∃ content mode', t'.node p = some (.file (f content) mode')) ∧ Replaces p t t' := by
  unfold update at updated
  split at updated
  next content mode' _ =>
    obtain ⟨there, replaces⟩ := place_ok updated
    exact ⟨⟨content, mode', there⟩, replaces⟩
  · cases updated
  · cases updated
  · obtain ⟨there, replaces⟩ := place_ok updated
    exact ⟨⟨fresh, mode, there⟩, replaces⟩

theorem remove_ok (removed : t.remove p = .ok t') :
    t'.node p = none ∧ Replaces p t t' := by
  grind [remove, node_unset, Replaces]

theorem mkdirAll_ok (made : t.mkdirAll p = .ok t') :
    t'.node p = some .dir ∧ ∀ q, t'.node q = t.node q ∨
      (t.node q = none ∧ t'.node q = some .dir ∧ q <:+ p) := by
  induction p generalizing t' with
  | nil =>
    cases made
    exact ⟨rfl, fun q => .inl rfl⟩
  | cons name parent ih =>
    unfold mkdirAll at made
    split at made
    next found =>
      cases made
      exact ⟨found, fun q => .inl rfl⟩
    · cases made
    next missing =>
      split at made
      next between above =>
        obtain ⟨_, grown⟩ := ih above
        obtain ⟨_, there, replaces⟩ := mkdir_ok made
        refine ⟨there, ?_⟩
        intro q
        by_cases last : q = name :: parent
        · subst last
          exact .inr ⟨missing, there, List.suffix_rfl⟩
        · rw [replaces q last]
          rcases grown q with same | ⟨missing', new, higher⟩
          · exact .inl same
          · exact .inr ⟨missing', new, higher.trans (List.suffix_cons name parent)⟩
      · cases made

theorem read_ok (read : t.read p = .ok content) :
    ∃ mode, t.node p = some (.file content mode) := by
  grind [FileTree.read]

/-- An operation that reports a missing entry was given a path that names nothing. -/
theorem lstat_noEntry (missing : t.lstat p = .error .noEntry) :
    t.node p = none := by
  grind [FileTree.lstat]

theorem read_noEntry (missing : t.read p = .error .noEntry) :
    t.node p = none := by
  unfold read at missing
  split at missing
  · cases missing
  · cases missing
  · cases missing
  next absent => exact absent

theorem remove_noEntry (missing : t.remove p = .error .noEntry) :
    t.node p = none := by
  grind [remove]

end FileTree

end TrojanGo.Lib
