import TrojanGo.Lib.FileTree
import TrojanGo.Lib.Table

/-!
# A directory with symbolic links

Paths are looked up as the kernel does it, link by link; what leads out of the directory is not
found.
-/
namespace TrojanGo.Lib.Links

inductive Entry (C : Type) : Type where
  | dir
  | file (content : C)
  /-- the text of the link, cut at its slashes -/
  | link (target : List String)
  deriving DecidableEq

instance {C : Type} : (e : Option (Entry C)) → Decidable (e = some .dir)
  | some .dir => isTrue rfl
  | some (.file _) => isFalse (by simp)
  | some (.link _) => isFalse (by simp)
  | none => isFalse (by simp)

/-- The contents of a directory, by their paths in it. -/
abbrev LinkedTree (C : Type) := Table Path (Entry C)

variable {C : Type} {t t' : LinkedTree C} {p q : Path} {name : String}

def entry (t : LinkedTree C) (p : Path) : Option (Entry C) :=
  if p = [] then some .dir else t.lookup p

/-! ### Looking paths up -/

/-- How many components and links a lookup follows. -/
def steps : Nat := 255

/-- Follow the components of a path, starting in a directory. -/
def walk (t : LinkedTree C) : Nat → Path → List String → Option Path
  | _, here, [] => some here
  | 0, _, _ :: _ => none
  | n + 1, here, name :: rest =>
    if name = "" ∨ name = "." then walk t n here rest
    else if name = ".." then
      match here with
      | [] => none
      | _ :: parent => walk t n parent rest
    else
      match entry t (name :: here) with
      | none => none
      | some .dir => walk t n (name :: here) rest
      | some (.file _) => if rest = [] then some (name :: here) else none
      -- an absolute link leads out of the directory
      | some (.link target) =>
        if target.head? = some "" then none else walk t n here (target ++ rest)

/-- The path without links that a path stands for. -/
def resolve (t : LinkedTree C) (p : Path) : Option Path := walk t steps [] p.reverse

/-- The path without links of an entry that is not itself followed. -/
def locate (t : LinkedTree C) : Path → Option Path
  | [] => some []
  | name :: parent => (resolve t parent).map (name :: ·)

def stat (t : LinkedTree C) (p : Path) : Option (Entry C) := (resolve t p).bind (entry t)

def content (t : LinkedTree C) (p : Path) : Option C :=
  match stat t p with
  | some (.file content) => some content
  | _ => none

/-- A component that names an entry. -/
def Plain (name : String) : Prop := name ≠ "" ∧ name ≠ "." ∧ name ≠ ".."

instance (name : String) : Decidable (Plain name) := inferInstanceAs (Decidable (_ ∧ _ ∧ _))

section Walk

variable {n : Nat} {here : Path} {rest target : List String} {c : C}

@[simp] theorem walk_nil : walk t n here [] = some here := by
  cases n <;> rfl

theorem walk_dir (plain : Plain name) (found : entry t (name :: here) = some .dir) :
    walk t (n + 1) here (name :: rest) = walk t n (name :: here) rest := by
  simp [walk, plain.1, plain.2.1, plain.2.2, found]

theorem walk_file (plain : Plain name) (found : entry t (name :: here) = some (.file c)) :
    walk t (n + 1) here [name] = some (name :: here) := by
  simp [walk, plain.1, plain.2.1, plain.2.2, found]

theorem walk_link (plain : Plain name) (found : entry t (name :: here) = some (.link target))
    (relative : target.head? ≠ some "") :
    walk t (n + 1) here (name :: rest) = walk t n here (target ++ rest) := by
  simp [walk, plain.1, plain.2.1, plain.2.2, found, relative]

end Walk

theorem locate_top : locate t [name] = some [name] := rfl

/-- Below plain directories a path is where it says. -/
theorem locate_in {dir : String} (plain : Plain dir) (found : entry t [dir] = some .dir) :
    locate t [name, dir] = some [name, dir] := by
  have up : walk t steps [] [dir] = some [dir] := by
    rw [steps, walk_dir plain found, walk_nil]
  simp [locate, resolve, up]

theorem locate_below {dir sub : String} (plain : Plain dir) (found : entry t [dir] = some .dir)
    (plain' : Plain sub) (found' : entry t [sub, dir] = some .dir) :
    locate t [name, sub, dir] = some [name, sub, dir] := by
  have up : walk t steps [] [dir, sub] = some [sub, dir] := by
    rw [steps, walk_dir plain found, walk_dir plain' found', walk_nil]
  simp [locate, resolve, up]

/-! ### Changing entries -/

theorem entry_insert {e : Entry C} (inside : p ≠ []) :
    entry (t.insert p e) q = if q = p then some e else entry t q := by
  by_cases top : q = [] <;> simp [entry, top, inside.symm]

theorem entry_erase (inside : p ≠ []) :
    entry (t.erase p) q = if q = p then none else entry t q := by
  by_cases top : q = [] <;> simp [entry, top, inside.symm]

/-- Make a new entry in a directory. -/
def create (t : LinkedTree C) (p : Path) (e : Entry C) : Option (LinkedTree C) :=
  if p ≠ [] ∧ entry t p = none ∧ entry t p.tail = some .dir then some (t.insert p e) else none

theorem create_ok {e : Entry C} (made : create t p e = some t') :
    p ≠ [] ∧ entry t p = none ∧ ∀ q, entry t' q = if q = p then some e else entry t q := by
  grind [create, entry_insert]

/-- Make a directory and what is missing above it. -/
def mkdirAll (t : LinkedTree C) : Path → Option (LinkedTree C)
  | [] => some t
  | name :: parent =>
    match stat t (name :: parent) with
    | some .dir => some t
    | some _ => none
    | none => (mkdirAll t parent).bind fun t => create t (name :: parent) .dir

/-- Give a file its content. A new file needs a directory, and an old one is overwritten; the
lookup has followed the links before. -/
def write (t : LinkedTree C) (p : Path) (c : C) : Option (LinkedTree C) :=
  match entry t p with
  | none => create t p (.file c)
  | some (.file _) => if p = [] then none else some (t.insert p (.file c))
  | some _ => none

theorem write_ok {c : C} (written : write t p c = some t') :
    p ≠ [] ∧ ∀ q, entry t' q = if q = p then some (.file c) else entry t q := by
  unfold write at written
  split at written
  · obtain ⟨inside, -, left⟩ := create_ok written
    exact ⟨inside, left⟩
  · split at written
    · cases written
    next inside =>
      cases written
      exact ⟨inside, fun q => entry_insert inside⟩
  · cases written

/-- Remove a file, a link or an empty directory. -/
def remove (t : LinkedTree C) (p : Path) : Option (LinkedTree C) :=
  match entry t p with
  | none => none
  | some .dir =>
    if p = [] ∨ t.entries.any fun row => row.1 ≠ [] ∧ row.1.tail = p then none
    else some (t.erase p)
  | some _ => some (t.erase p)

theorem remove_ok (removed : remove t p = some t') :
    p ≠ [] ∧ ∀ q, entry t' q = if q = p then none else entry t q := by
  grind [remove, entry, entry_erase]

/-- Move a file or a link, in place of whatever file or link is there. Directories are not
moved here. -/
def rename (t : LinkedTree C) (p q : Path) : Option (LinkedTree C) :=
  match entry t p with
  | none | some .dir => none
  | some e =>
    if q ≠ [] ∧ entry t q ≠ some .dir ∧ entry t q.tail = some .dir then
      some ((t.erase p).insert q e)
    else none

theorem rename_ok (renamed : rename t p q = some t') :
    p ≠ [] ∧ q ≠ [] ∧ ∃ e, entry t p = some e ∧
      ∀ r, entry t' r = if r = q then some e else if r = p then none else entry t r := by
  grind [rename, entry, entry_insert, entry_erase]

/-- Remove an entry and everything below it, except for what is left over by a failure. -/
def removeAll (t : LinkedTree C) (p : Path) (left : Path → Bool) : LinkedTree C :=
  t.filter fun row => ¬ p <:+ row.1 ∨ left row.1

theorem entry_removeAll {left : Path → Bool} (outside : ¬ p <:+ q) :
    entry (removeAll t p left) q = entry t q := by
  unfold entry removeAll
  split
  · rfl
  · rw [Table.lookup_filter]
    cases t.lookup q <;> simp [outside]

/-- The names in a directory and whether they are directories. -/
def list (t : LinkedTree C) (p : Path) : List (String × Bool) :=
  t.entries.filterMap fun row =>
    match row.1, row.2 with
    | name :: parent, .dir => if parent = p then some (name, true) else none
    | name :: parent, _ => if parent = p then some (name, false) else none
    | [], _ => none

end TrojanGo.Lib.Links
