import TrojanGo.Plane.Outbox
import Mathlib.Data.Finset.Sort
import Mathlib.Data.String.Basic

/-!
# The outbox file as a document

Members are taken here as the decoder finds them; the text of a document is left to the JSON
package.
-/
namespace TrojanGo.Plane

open Lib List

inductive Json where
  | null
  | bool (b : Bool)
  | number (n : Int)
  | string (s : String)
  | array (items : List Json)
  | object (members : List (String × Json))

/-! ### Encoding -/

def encodeTraffic (t : Traffic) : Json := .object [("up", .number t.up), ("down", .number t.down)]

/-- Maps are written with sorted keys. -/
def encodeAmounts (m : Amounts) : Json :=
  .object ((m.keys.sort fun a b => a ≤ b).map fun hash => (hash, encodeTraffic (value m hash)))

def State.encode (st : State) : Json :=
  .object ([("version", .number st.version)] ++
    (if st.pendingSyncID = "" then [] else [("pending_sync_id", .string st.pendingSyncID)]) ++
    (if st.pending = ∅ then [] else [("pending", encodeAmounts st.pending)]) ++
    (if st.queued = ∅ then [] else [("queued", encodeAmounts st.queued)]))

/-! ### Decoding -/

def decodeWord (old : Nat) : Json → Except String Nat
  | .null => .ok old
  | .number n => if 0 ≤ n ∧ n < word then .ok n.toNat else .error "number out of range"
  | _ => .error "not a number"

/-- One member of a traffic object; other members are ignored. -/
def decodeTrafficMember (t : Traffic) : String × Json → Except String Traffic
  | ("up", json) => (decodeWord t.up json).map fun up => { t with up := up }
  | ("down", json) => (decodeWord t.down json).map fun down => { t with down := down }
  | _ => .ok t

def decodeTraffic : Json → Except String Traffic
  | .null => .ok 0
  | .object members => members.foldlM decodeTrafficMember 0
  | _ => .error "not an object"

def decodeAmount (m : Amounts) : String × Json → Except String Amounts
  | (hash, json) => (decodeTraffic json).map fun t => m.insert hash t

/-- Members are added to the map that is there; null replaces it. -/
def decodeAmounts (old : Amounts) : Json → Except String Amounts
  | .null => .ok ∅
  | .object members => members.foldlM decodeAmount old
  | _ => .error "not an object"

def decodeVersion (old : Int) : Json → Except String Int
  | .null => .ok old
  | .number n => if -2 ^ 63 ≤ n ∧ n < 2 ^ 63 then .ok n else .error "number out of range"
  | _ => .error "not a number"

def decodeString (old : String) : Json → Except String String
  | .null => .ok old
  | .string s => .ok s
  | _ => .error "not a string"

/-- One member of the state; other members are ignored. -/
def decodeMember (st : State) : String × Json → Except String State
  | ("version", json) => (decodeVersion st.version json).map fun v => { st with version := v }
  | ("pending_sync_id", json) =>
    (decodeString st.pendingSyncID json).map fun id => { st with pendingSyncID := id }
  | ("pending", json) => (decodeAmounts st.pending json).map fun m => { st with pending := m }
  | ("queued", json) => (decodeAmounts st.queued json).map fun m => { st with queued := m }
  | _ => .ok st

def State.decode (st : State) : Json → Except String State
  | .null => .ok st
  | .object members => members.foldlM decodeMember st
  | _ => .error "not an object"

/-! ### The file -/

inductive File where
  | absent
  /-- it cannot be read, or its text is not JSON -/
  | unreadable (reason : String)
  | document (json : Json)

def File.load : File → Except String State
  | .absent => .ok (State.normalize {})
  | .unreadable reason => .error reason
  | .document json =>
    match (State.normalize {}).decode json with
    | .error reason => .error s!"decode traffic outbox: {reason}"
    | .ok state =>
      match state.validate with
      | .error reason => .error s!"validate traffic outbox: {reason}"
      | .ok () => .ok state.normalize

/-- What is in the file. -/
def Disk.file : Disk → File
  | .absent => .absent
  | .unreadable reason => .unreadable reason
  | .stored st => .document st.state.encode

/-! ### The round trip -/

/-- The amounts are 64-bit words. -/
def Bounded (m : Amounts) : Prop := ∀ hash t, m.lookup hash = some t → t.up < word ∧ t.down < word

theorem foldlM_ok {α β : Type} {f : β → α → Except String β} {acc acc' : β} {a : α}
    (one : f acc a = .ok acc') (rest : List α) :
    (a :: rest).foldlM f acc = rest.foldlM f acc' := by
  rw [foldlM_cons, one]
  rfl

theorem decodeWord_encode (old : Nat) {n : Nat} (small : n < word) :
    decodeWord old (.number n) = .ok n := by
  simp [decodeWord, small]

theorem decodeTraffic_encode {t : Traffic} (up : t.up < word) (down : t.down < word) :
    decodeTraffic (encodeTraffic t) = .ok t := by
  have first : decodeTrafficMember 0 ("up", .number t.up) = .ok ⟨t.up, 0⟩ := by
    rw [decodeTrafficMember, decodeWord_encode _ up]
    rfl
  have second : decodeTrafficMember ⟨t.up, 0⟩ ("down", .number t.down) = .ok t := by
    rw [decodeTrafficMember, decodeWord_encode _ down]
    rfl
  rw [encodeTraffic, decodeTraffic, foldlM_ok first, foldlM_ok second]
  rfl

theorem decodeAmount_fold {m acc : Amounts} (bounded : Bounded m) (hashes : List String)
    (inside : ∀ hash ∈ hashes, hash ∈ m) :
    ∃ result, (hashes.map fun hash => (hash, encodeTraffic (value m hash))).foldlM
        decodeAmount acc = .ok result ∧
      ∀ hash, result.lookup hash = if hash ∈ hashes then m.lookup hash else acc.lookup hash := by
  induction hashes generalizing acc with
  | nil => exact ⟨acc, rfl, by simp⟩
  | cons first rest ih =>
    obtain ⟨here, later⟩ := forall_mem_cons.mp inside
    obtain ⟨t, found⟩ := Finmap.mem_iff.mp here
    have small := bounded first t found
    have entry : value m first = t := by simp [value, found]
    have one : decodeAmount acc (first, encodeTraffic (value m first)) =
        .ok (acc.insert first t) := by
      rw [entry, decodeAmount, decodeTraffic_encode small.1 small.2]
      rfl
    obtain ⟨result, folded, lookups⟩ := @ih (acc.insert first t) later
    refine ⟨result, ?_, fun hash => ?_⟩
    · rw [map_cons, foldlM_ok one, folded]
    · rw [lookups hash]
      -- a hash that comes again is decoded from the same amount again
      by_cases mem : hash ∈ rest
      · simp [mem]
      · by_cases same : hash = first
        · subst same
          simp [mem, found]
        · simp [mem, same, Finmap.lookup_insert_of_ne _ same]

theorem decodeAmounts_encode {m : Amounts} (bounded : Bounded m) :
    decodeAmounts ∅ (encodeAmounts m) = .ok m := by
  obtain ⟨result, folded, lookups⟩ := @decodeAmount_fold m ∅ bounded
    (m.keys.sort fun a b => a ≤ b) (fun hash mem => by simpa [Finmap.mem_keys] using mem)
  rw [encodeAmounts, decodeAmounts, folded]
  congr 1
  apply Finmap.ext_lookup
  intro hash
  rw [lookups hash]
  by_cases mem : hash ∈ m
  · simp [Finmap.mem_keys, mem]
  · simp [Finmap.mem_keys, mem, Finmap.lookup_eq_none.mpr mem]

/-- The amounts of a state are 64-bit words. -/
structure State.Fits (st : State) : Prop where
  pending : Bounded st.pending
  queued : Bounded st.queued

/-- A member that is left out if it is empty. -/
theorem decode_optional {empty : Prop} [Decidable empty] {st st' : State} {mem : String × Json}
    (skip : empty → st' = st) (one : ¬ empty → decodeMember st mem = .ok st')
    (rest : List (String × Json)) :
    ((if empty then [] else [mem]) ++ rest).foldlM decodeMember st =
      rest.foldlM decodeMember st' := by
  by_cases nothing : empty
  · rw [if_pos nothing, skip nothing, nil_append]
  · rw [if_neg nothing, singleton_append, foldlM_ok (one nothing)]

/-- Decoding a document over an empty state gives back what was encoded. -/
theorem State.decode_encode {st : State} (fits : st.Fits) (normal : st.version = currentVersion) :
    (State.normalize {}).decode st.encode = .ok st := by
  obtain ⟨version, id, pending, queued⟩ := st
  change version = currentVersion at normal
  subst normal
  -- the state after each member of the document
  let versioned : State := { version := currentVersion }
  let named : State := { versioned with pendingSyncID := id }
  let batched : State := { named with pending := pending }
  have first : decodeMember (State.normalize {}) ("version", .number currentVersion) =
      .ok versioned := rfl
  have second : id ≠ "" → decodeMember versioned ("pending_sync_id", .string id) = .ok named :=
    fun _ => rfl
  have third : pending ≠ ∅ → decodeMember named ("pending", encodeAmounts pending) =
      .ok batched := by
    intro _
    -- members are added to the map that is there, which is empty
    rw [decodeMember, show named.pending = ∅ from rfl, decodeAmounts_encode fits.pending]
    rfl
  have fourth : queued ≠ ∅ → decodeMember batched ("queued", encodeAmounts queued) =
      .ok { batched with queued := queued } := by
    intro _
    rw [decodeMember, show batched.queued = ∅ from rfl, decodeAmounts_encode fits.queued]
    rfl
  rw [State.encode, State.decode]
  simp only [append_assoc, cons_append, nil_append]
  rw [foldlM_ok first, decode_optional (by rintro rfl; rfl) second,
    decode_optional (by rintro rfl; rfl) third,
    ← append_nil (if queued = ∅ then [] else [("queued", encodeAmounts queued)]),
    decode_optional (by rintro rfl; rfl) fourth]
  rfl

/-- A document that was written loads as what was written. -/
theorem Disk.file_load {disk : Disk} (fits : disk.content.Fits) : disk.file.load = disk.load := by
  cases disk with
  | absent | unreadable => rfl
  | stored st =>
    have back : (State.normalize {}).decode st.state.encode = .ok st.state :=
      State.decode_encode fits st.normal
    simp only [Disk.file, File.load, back, st.valid, Disk.load]

end TrojanGo.Plane
