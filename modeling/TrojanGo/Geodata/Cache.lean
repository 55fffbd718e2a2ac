import TrojanGo.Geodata.Entries
import TrojanGo.Lib.Memo
import TrojanGo.Tunnel.Connections

/-!
# The geodata caches

Entries that have been found are kept under the lower-case text of the file's path, a colon and
the code. The code for `GeoIP` and `GeoSite` is the same but for the messages' types and a text.
-/
namespace TrojanGo.Geodata

open Lib

/-! ### Files -/

/-- What a path leads to. -/
inductive Node where
  /-- `os.Open` fails -/
  | unavailable
  /-- it can be opened, but not read -/
  | directory
  | file (content : Bytes)

/-- What a lookup uses from outside. The files do not change. -/
structure World extends Platform where
  /-- `strings.ToLower` -/
  toLower : Bytes → Bytes
  /-- `common.GetAssetLocation` -/
  assetLocation : Bytes → Bytes
  node : Bytes → Node

inductive DecodeError where
  | unavailable (filename : Bytes)
  | scan (e : ScanError)
  deriving DecidableEq

/-- The result of a call. -/
inductive Call (ε α : Type) where
  | returned (result : Except ε α)
  | panicked
  /-- the call does not return -/
  | hangs
  deriving DecidableEq

/-- `Decode`. -/
def decode (w : World) (filename code : Bytes) : Call DecodeError Bytes :=
  match w.node filename with
  | .unavailable => .returned (.error (.unavailable filename))
  | .directory => emitted (emitBytes w.toPlatform { content := [], readable := false } code)
  | .file content => emitted (emitBytes w.toPlatform { content } code)
where
  emitted : Option Emitted → Call DecodeError Bytes
    | none => .hangs
    | some .panicked => .panicked
    | some (.returned (.error e)) => .returned (.error (.scan e))
    | some (.returned (.ok bytes)) => .returned (.ok bytes)

/-- `os.ReadFile`. -/
def readFile (w : World) (filename : Bytes) : Option Bytes :=
  match w.node filename with
  | .file content => some content
  | _ => none

/-! ### Lookups -/

/-- A kind of entry: how its code is called in a message, and `proto.Unmarshal` for it and for
lists of it. -/
structure Kind (E : Type) where
  called : Bytes
  unmarshal : Bytes → Except Bytes E
  unmarshalList : Bytes → Except Bytes (List E)
  countryCode : E → Bytes

inductive LoadError where
  | unavailable (filename : Bytes)
  | unreadable (filename : Bytes)
  | proto (text : Bytes)
  | message (text : Bytes)
  deriving DecidableEq

/-- The file and the code that are looked up. -/
structure Lookup where
  filename : Bytes
  code : Bytes

variable {E : Type}

def notFound (kind : Kind E) (l : Lookup) : Call LoadError E :=
  .returned (.error (.message
    (kind.called ++ l.code ++ Tunnel.ascii " not found in " ++ l.filename)))

def Lookup.asset (w : World) (l : Lookup) : Bytes := w.assetLocation l.filename

/-- The key of the map. -/
def Lookup.idx (w : World) (l : Lookup) : Bytes :=
  w.toLower (l.asset w ++ Tunnel.ascii ":" ++ l.code)

abbrev Cache (E : Type) := Table Bytes E

/-- `geoipCache.Unmarshal` and `geositeCache.Unmarshal`. -/
def Kind.unmarshalCached (w : World) (kind : Kind E) (cache : Cache E) (l : Lookup) :
    Call LoadError E × Cache E :=
  match cache.lookup (l.idx w) with
  | some entry => (.returned (.ok entry), cache)
  | none =>
    match decode w (l.asset w) l.code with
    | .hangs => (.hangs, cache)
    | .panicked => (.panicked, cache)
    | .returned (.ok bytes) =>
      match kind.unmarshal bytes with
      | .error text => (.returned (.error (.proto text)), cache)
      | .ok entry => (.returned (.ok entry), cache.insert (l.idx w) entry)
    | .returned (.error (.scan .codeNotFound)) => (notFound kind l, cache)
    | .returned (.error (.scan _)) =>
      -- the file is decoded as a whole
      match readFile w (l.asset w) with
      | none => (.returned (.error (.unreadable (l.asset w))), cache)
      | some bytes =>
        match kind.unmarshalList bytes with
        | .error text => (.returned (.error (.proto text)), cache)
        | .ok entries =>
          match entries.find? fun e => w.equalFold l.code (kind.countryCode e) with
          | some entry => (.returned (.ok entry), cache.insert (l.idx w) entry)
          | none => (notFound kind l, cache)
    | .returned (.error (.unavailable filename)) =>
      (.returned (.error (.unavailable filename)), cache)

/-- The results of one lookup after the other. -/
def Kind.lookups (w : World) (kind : Kind E) : Cache E → List Lookup → List (Call LoadError E)
  | _, [] => []
  | cache, l :: ls =>
    (kind.unmarshalCached w cache l).1 :: Kind.lookups w kind (kind.unmarshalCached w cache l).2 ls

def noEntries : Cache E := ⟨[], List.nodup_nil⟩

/-- The result of a lookup that finds the map empty. -/
def Kind.uncached (w : World) (kind : Kind E) (l : Lookup) : Call LoadError E :=
  (kind.unmarshalCached w noEntries l).1

/-! ### What is found depends on the case of a code only if folding does -/

section Folding

variable {env : Platform} {code code' : Bytes}

theorem step_fold (same : env.fold code = env.fold code') (s : Scan) :
    s.step env code = s.step env code' := by
  have folds : ∀ container, env.equalFold container code = env.equalFold container code' := by
    intro container
    rw [Platform.equalFold, same, Platform.equalFold]
  unfold Scan.step Scan.switch
  simp only [folds]

theorem run_fold (same : env.fold code = env.fold code') (k : Nat) (s : Scan) :
    run env code k s = run env code' k s := by
  induction k generalizing s with
  | zero => rfl
  | succ k ih => simp only [run, step_fold same, ih]

theorem decode_fold {w : World} (same : w.fold code = w.fold code') (filename : Bytes) :
    decode w filename code = decode w filename code' := by
  unfold decode emitBytes
  simp only [run_fold same]

end Folding

/-- The entry that a file holds for a code. -/
def held (w : World) (kind : Kind E) (asset code : Bytes) : Option E :=
  match decode w asset code with
  | .returned (.ok bytes) => (kind.unmarshal bytes).toOption
  | .returned (.error (.scan .codeNotFound)) => none
  | .returned (.error (.scan _)) =>
    (readFile w asset).bind fun bytes =>
      (kind.unmarshalList bytes).toOption.bind fun entries =>
        entries.find? fun e => w.equalFold code (kind.countryCode e)
  | _ => none

variable {w : World}

theorem held_fold {code code' : Bytes} (same : w.fold code = w.fold code') (kind : Kind E)
    (asset : Bytes) : held w kind asset code = held w kind asset code' := by
  unfold held
  simp only [decode_fold same, Platform.equalFold, same]

/-- Everything a lookup does that finds nothing in the map. -/
theorem unmarshalCached_missing {kind : Kind E} {cache : Cache E} {l : Lookup}
    (missing : cache.lookup (l.idx w) = none) :
    ∃ result, kind.unmarshalCached w cache l = (result,
        match held w kind (l.asset w) l.code with
        | some e => cache.insert (l.idx w) e
        | none => cache) ∧
      (∀ e, result = .returned (.ok e) ↔ held w kind (l.asset w) l.code = some e) ∧
      result = kind.uncached w l := by
  have empty : (noEntries : Cache E).lookup (l.idx w) = none := rfl
  unfold Kind.uncached Kind.unmarshalCached held
  rw [missing, empty]
  simp only
  cases decode w (l.asset w) l.code with
  | hangs => simp
  | panicked => simp
  | returned result =>
    cases result with
    | ok bytes =>
      simp only
      cases kind.unmarshal bytes <;> simp [Except.toOption]
    | error e =>
      cases e with
      | unavailable filename => simp
      | scan e =>
        by_cases absent : e = .codeNotFound
        · simp [absent, notFound]
        simp only
        cases readFile w (l.asset w) with
        | none => simp
        | some bytes =>
          simp only [Option.bind_some]
          cases kind.unmarshalList bytes with
          | error text => simp [Except.toOption]
          | ok entries =>
            simp only [Except.toOption, Option.bind_some]
            cases entries.find? fun e => w.equalFold l.code (kind.countryCode e) with
            | none => simp [notFound]
            | some entry => simp

theorem uncached_eq_iff {kind : Kind E} {l : Lookup} {e : E} :
    kind.uncached w l = .returned (.ok e) ↔ held w kind (l.asset w) l.code = some e := by
  have empty : (noEntries : Cache E).lookup (l.idx w) = none := rfl
  obtain ⟨result, -, found, rfl⟩ := unmarshalCached_missing empty
  exact found e

/-! ### The map as a table of remembered results -/

def Kind.memo (w : World) (kind : Kind E) : Memo Lookup Bytes E (Call LoadError E) where
  key := Lookup.idx w
  fetch := kind.uncached w
  hit e := .returned (.ok e)
  stored
    | .returned (.ok e) => some e
    | _ => none
  stored_iff result e := by
    split <;> simp_all

theorem unmarshalCached_eq_get (w : World) (kind : Kind E) (cache : Cache E) (l : Lookup) :
    kind.unmarshalCached w cache l = (kind.memo w).get cache l := by
  have stored : (kind.memo w).stored (kind.uncached w l) = held w kind (l.asset w) l.code :=
    Option.ext fun e => by
      rw [(kind.memo w).stored_iff]
      exact uncached_eq_iff
  unfold Memo.get
  cases hit : cache.lookup ((kind.memo w).key l) with
  | some e =>
    unfold Kind.unmarshalCached
    rw [show cache.lookup (l.idx w) = some e from hit]
    rfl
  | none =>
    obtain ⟨result, whole, -, rfl⟩ := unmarshalCached_missing hit
    rw [whole, ← stored]
    simp only [Kind.memo]
    split <;> simp_all

theorem lookups_eq_gets (w : World) (kind : Kind E) (cache : Cache E) (ls : List Lookup) :
    kind.lookups w cache ls = (kind.memo w).gets cache ls := by
  induction ls generalizing cache with
  | nil => rfl
  | cons l ls ih => rw [Kind.lookups, Memo.gets, unmarshalCached_eq_get, ih]

/-- Two lookups share a key, though they name different files or different codes. -/
def Clash (w : World) (l l' : Lookup) : Prop :=
  l.idx w = l'.idx w ∧ ¬ (l.asset w = l'.asset w ∧ w.equalFold l.code l'.code)

/-- Nothing is noticed of the map exactly if of two lookups that share a key, but not the file or
not the code, the second one's file holds for its code what the first one's does for its. -/
theorem lookups_eq_uncached_iff (w : World) (kind : Kind E) (ls : List Lookup) :
    kind.lookups w noEntries ls = ls.map (kind.uncached w) ↔
      ls.Pairwise fun l l' => Clash w l l' → ∀ e,
        held w kind (l.asset w) l.code = some e → held w kind (l'.asset w) l'.code = some e := by
  rw [lookups_eq_gets]
  refine ((kind.memo w).gets_empty_iff).trans (List.Pairwise.iff ?_)
  intro l l'
  have consistent : (kind.memo w).Consistent l l' ↔ (l.idx w = l'.idx w → ∀ e,
      held w kind (l.asset w) l.code = some e → held w kind (l'.asset w) l'.code = some e) := by
    simp only [← uncached_eq_iff]
    rfl
  rw [consistent]
  constructor
  · exact fun same clash => same clash.1
  · intro clashes shared e found
    by_cases named : l.asset w = l'.asset w ∧ w.equalFold l.code l'.code
    · obtain ⟨file, folds⟩ := named
      have folds : w.fold l.code = w.fold l'.code := by simpa [Platform.equalFold] using folds
      rwa [← file, ← held_fold folds]
    · exact clashes ⟨shared, named⟩ e found

/-- The files `A` and `a`, of which only the first is there. -/
def caseSensitive : World where
  toPlatform := asciiPlatform
  toLower s := s.map fun b => if 65 ≤ b ∧ b ≤ 90 then b + 32 else b
  assetLocation filename := filename
  node filename :=
    if filename = [65] then .file (marshalList [⟨[99, 110], []⟩]) else .unavailable

/-- `GeoIP`, with what of its fields a lookup looks at. -/
def countries : Kind Entry where
  called := Tunnel.ascii "country code "
  unmarshal bytes := (unmarshal bytes).elim (.error []) .ok
  unmarshalList bytes := (unmarshalList bytes).elim (.error []) .ok
  countryCode := Entry.countryCode

/-- The second lookup is for a file that is not there, and gets the entry of the first. -/
theorem lookups_across_files :
    countries.lookups caseSensitive noEntries [⟨[65], [99, 110]⟩, ⟨[97], [99, 110]⟩] =
      [.returned (.ok ⟨[99, 110], []⟩), .returned (.ok ⟨[99, 110], []⟩)] ∧
    countries.uncached caseSensitive ⟨[97], [99, 110]⟩ =
      .returned (.error (.unavailable [97])) := by
  decide

end TrojanGo.Geodata
