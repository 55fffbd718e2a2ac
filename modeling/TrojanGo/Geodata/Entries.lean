import TrojanGo.Geodata.Termination

/-!
# Lists of geodata entries

What the scan finds in a written list is what decoding the list and searching it finds.
-/
namespace TrojanGo.Geodata

open Lib Lib.Chains List
open Lib.Protobuf (Field varint)

/-! ### The messages -/

/-- `GeoIP` and `GeoSite`: the country code, and the fields behind it. -/
structure Entry where
  countryCode : Bytes
  others : List Field
  deriving DecidableEq

/-- The fields that are written. A code that is empty is left out. -/
def Entry.fields (e : Entry) : List Field :=
  if e.countryCode = [] then e.others else ⟨1, .len e.countryCode⟩ :: e.others

def Entry.marshal (e : Entry) : Bytes := Protobuf.encode e.fields

def marshalList (entries : List Entry) : Bytes :=
  Protobuf.encode (entries.map fun e => ⟨1, .len e.marshal⟩)

/-- The text of a field with number 1. -/
def first? (f : Field) : Option Bytes :=
  match f with
  | ⟨1, .len bytes⟩ => some bytes
  | _ => none

/-- Of several codes the last one counts. -/
def unmarshal (bytes : Bytes) : Option Entry :=
  (Protobuf.decode bytes).map fun fields =>
    { countryCode := ((fields.filterMap first?).getLast?).getD []
      others := fields.filter fun f => (first? f).isNone }

def unmarshalList (bytes : Bytes) : Option (List Entry) :=
  (Protobuf.decode bytes).bind fun fields => (fields.filterMap first?).mapM unmarshal

/-- The entry can be written: its fields are those of messages, and none of them is a second
code. -/
structure Entry.Valid (e : Entry) : Prop where
  code : e.countryCode.length < 2 ^ 64
  others : ∀ f ∈ e.others, f.Valid ∧ f.number ≠ 1
  size : e.marshal.length < 2 ^ 64

instance (e : Entry) : Decidable e.Valid :=
  decidable_of_iff (e.countryCode.length < 2 ^ 64 ∧ (∀ f ∈ e.others, f.Valid ∧ f.number ≠ 1) ∧
      e.marshal.length < 2 ^ 64)
    ⟨fun ⟨code, others, size⟩ => ⟨code, others, size⟩,
      fun ⟨code, others, size⟩ => ⟨code, others, size⟩⟩

section Messages

variable {e : Entry} {entries : List Entry}

theorem first?_other {f : Field} (other : f.number ≠ 1) : first? f = none := by
  unfold first?
  split
  · exact absurd rfl other
  · rfl

theorem unmarshal_marshal (valid : e.Valid) : unmarshal e.marshal = some e := by
  have fields : ∀ f ∈ e.fields, f.Valid := by
    intro f mem
    unfold Entry.fields at mem
    split at mem
    · exact (valid.others f mem).1
    · rcases mem_cons.mp mem with rfl | mem
      · exact ⟨by simp, by simp, valid.code⟩
      · exact (valid.others f mem).1
  have codes : e.others.filterMap first? = [] :=
    filterMap_eq_nil_iff.mpr fun f mem => first?_other (valid.others f mem).2
  have kept : e.others.filter (fun f => (first? f).isNone) = e.others :=
    filter_eq_self.mpr fun f mem => by simp [first?_other (valid.others f mem).2]
  rw [unmarshal, Entry.marshal, Protobuf.decode_encode fields, Option.map_some, Entry.fields]
  split
  next empty => rw [codes, kept, getLast?_nil, Option.getD_none, ← empty]
  · have text : first? ⟨1, .len e.countryCode⟩ = some e.countryCode := rfl
    rw [filterMap_cons_some text, codes, getLast?_singleton, Option.getD_some,
      filter_cons_of_neg (by simp [text]), kept]

theorem unmarshalList_marshalList (valid : ∀ e ∈ entries, e.Valid) :
    unmarshalList (marshalList entries) = some entries := by
  have fields : ∀ f ∈ entries.map (fun e => (⟨1, .len e.marshal⟩ : Field)), f.Valid := by
    intro f mem
    obtain ⟨e, listed, rfl⟩ := mem_map.mp mem
    exact ⟨by simp, by simp, (valid e listed).size⟩
  rw [unmarshalList, marshalList, Protobuf.decode_encode fields, Option.bind_some,
    filterMap_map]
  have bodies : (first? ∘ fun e : Entry => ⟨1, .len e.marshal⟩) = some ∘ Entry.marshal := rfl
  rw [bodies, filterMap_eq_map]
  clear fields bodies
  induction entries with
  | nil => rfl
  | cons e entries ih =>
    obtain ⟨here, valid⟩ := forall_mem_cons.mp valid
    rw [map_cons, mapM_cons, unmarshal_marshal here, ih valid]
    rfl

end Messages

/-! ### The scan of a list -/

section Scan

variable {env : Platform} {code content rest : Bytes} {p n : Nat}

theorem readLength_terminated {taken bytes : Bytes} (terminated : Protobuf.Terminated bytes) :
    readLength taken (bytes ++ rest) =
      match Protobuf.consumeVarint (taken ++ bytes) with
      | .error _ => .error .invalidGeodataVarintLength
      | .ok result => .ok result := by
  induction terminated generalizing taken with
  | last small =>
    exact if_neg small
  | more large _ ih =>
    rw [cons_append, readLength, if_pos large, ih, append_assoc, singleton_append]

theorem readTag_varint (here : content.drop p = 10 :: (varint n ++ rest)) (small : n < 2 ^ 64) :
    readTag content p = .ok (n, (varint n).length) := by
  have read := Protobuf.consumeVarint_varint [] small
  rw [append_nil] at read
  simp [readTag, here, readLength_terminated (Protobuf.varint_terminated small), read]

/-- The length of the entry, and then the code with its length, lie in front of the scan. -/
theorem readHeader_varint (countryCode others : Bytes) {length : Nat}
    (here : content.drop p = 10 :: (varint length ++
      10 :: (varint countryCode.length ++ (countryCode ++ others))))
    (small : length < 2 ^ 64) (smallCode : countryCode.length < 2 ^ 64) :
    readHeader content p = .ok {
      length, start := p + 1 + (varint length).length
      codeLength := countryCode.length, lenBytes := (varint countryCode.length).length } := by
  have onward : content.drop (p + 1 + (varint length).length) =
      10 :: (varint countryCode.length ++ (countryCode ++ others)) := by
    rw [← drop_drop, ← drop_drop, here]
    simp
  simp only [readHeader, readTag_varint here small, readTag_varint onward smallCode, bind,
    Except.bind, pure, Except.pure]

/-- An entry in a list, as its field is written. -/
def Entry.field (e : Entry) : Field := ⟨1, .len e.marshal⟩

theorem Entry.field_encode (e : Entry) :
    e.field.encode = 10 :: (varint e.marshal.length ++ e.marshal) := rfl

theorem Entry.marshal_code {e : Entry} (named : e.countryCode ≠ []) :
    e.marshal = 10 :: (varint e.countryCode.length ++
      (e.countryCode ++ Protobuf.encode e.others)) := by
  rw [Entry.marshal, Entry.fields, if_neg named, Protobuf.encode_cons, ← append_assoc]
  rfl

/-- An entry of a length that the file can have is skipped as a whole. -/
theorem skip_eq {h : Header} (before : h.codeStart + h.codeLength ≤ env.maxOffset)
    (fits : h.start + h.length ≤ env.maxOffset) : h.skip env = h.start + h.length := by
  have limit := env.maxOffset_lt
  unfold Header.codeStart at before
  unfold Header.skip Header.codeStart
  rw [int64_self (by omega) (by omega)]
  simp only
  split <;> omega

theorem entry_written (env : Platform) (code : Bytes) {e : Entry} {before after : Bytes}
    (named : e.countryCode ≠ [])
    (whole : content = before ++ (e.field.encode ++ after))
    (slice : content.length ≤ env.maxAlloc) (once : content.length ≤ env.maxRead)
    (placed : content.length ≤ env.maxOffset) :
    entry env content code before.length =
      if env.equalFold e.countryCode code then .ended (.returned (.ok e.marshal))
      else .next (before ++ e.field.encode).length := by
  have limit := env.maxOffset_lt
  have marshal := Entry.marshal_code named
  -- the sizes of the parts
  have lengths : content.length = before.length + 1 + (varint e.marshal.length).length +
      e.marshal.length + after.length := by
    simp only [whole, Entry.field_encode, length_append, length_cons]
    omega
  have size : e.marshal.length = 1 + (varint e.countryCode.length).length +
      e.countryCode.length + (Protobuf.encode e.others).length := by
    rw [marshal]
    simp only [length_append, length_cons]
    omega
  let h : Header := {
    length := e.marshal.length, start := before.length + 1 + (varint e.marshal.length).length
    codeLength := e.countryCode.length, lenBytes := (varint e.countryCode.length).length }
  have read : readHeader content before.length = .ok h := by
    refine readHeader_varint e.countryCode (Protobuf.encode e.others ++ after) ?_ (by omega)
      (by omega)
    rw [whole, drop_left, Entry.field_encode, cons_append, append_assoc]
    simp only [marshal, cons_append, append_assoc]
  have body : content.drop h.start = e.marshal ++ after := by
    rw [← drop_drop, ← drop_drop, whole, drop_left, Entry.field_encode]
    simp
  have text : h.code content = e.countryCode := by
    rw [Header.code, Header.codeStart, ← drop_drop, ← drop_drop, body, marshal]
    simp [h]
  have skip : h.skip env = (before ++ e.field.encode).length := by
    rw [skip_eq (by simp only [Header.codeStart, h]; omega) (by simp only [h]; omega)]
    simp only [h, Entry.field_encode, length_append, length_cons]
    omega
  have codeSlice : ¬ env.maxAlloc < h.codeLength := by
    simp only [h]
    omega
  have bodySlice : ¬ env.maxAlloc < h.length := by
    simp only [h]
    omega
  have here : ¬ (h.codeLength ≠ 0 ∧ content.length ≤ h.codeStart) := by
    simp only [Header.codeStart, h]
    omega
  have complete : ¬ Cut env content h.codeStart h.codeLength := by
    simp only [Cut, Header.codeStart, h]
    omega
  have inside : ¬ Cut env content h.start h.length := by
    simp only [Cut, h]
    omega
  simp only [entry, read, Header.turn, text, skip, if_neg codeSlice, if_neg bodySlice, if_neg here,
    if_neg complete, if_neg inside, body]
  rw [take_left]

/-- What the scan finds in a list. -/
def found (env : Platform) (code : Bytes) (entries : List Entry) : Except ScanError Bytes :=
  match entries.find? fun e => env.equalFold code e.countryCode with
  | some e => .ok e.marshal
  | none => .error .codeNotFound

theorem equalFold_comm (s t : Bytes) : env.equalFold s t = env.equalFold t s := by
  simp [Platform.equalFold, eq_comm]

theorem chain_written {entries : List Entry} {before : Bytes}
    (named : ∀ e ∈ entries, e.countryCode ≠ []) (whole : content = before ++ marshalList entries)
    (slice : content.length ≤ env.maxAlloc) (once : content.length ≤ env.maxRead)
    (placed : content.length ≤ env.maxOffset) :
    ∃ n q, chain (following env content code) n before.length = some q ∧
      entry env content code q = .ended (.returned (found env code entries)) := by
  -- along the entries, with those that have been skipped in front
  induction entries generalizing before with
  | nil =>
    refine ⟨0, before.length, rfl, entry_past ?_⟩
    simp [whole, marshalList]
  | cons e entries ih =>
    obtain ⟨here, named⟩ := forall_mem_cons.mp named
    have parts : content = before ++ (e.field.encode ++ marshalList entries) := whole
    have turn := entry_written env code here parts slice once placed
    by_cases matched : env.equalFold e.countryCode code
    · refine ⟨0, before.length, rfl, ?_⟩
      have first : env.equalFold code e.countryCode := by rwa [equalFold_comm]
      simp [turn, matched, found, first]
    · rw [if_neg matched] at turn
      obtain ⟨n, q, reached, ended⟩ := @ih (before ++ e.field.encode) named
        (by rw [parts, append_assoc])
      refine ⟨n + 1, q, ?_, ?_⟩
      · rw [chain, following_eq_some.mpr turn, Option.bind_some, reached]
      · have other : ¬ env.equalFold code e.countryCode := by rwa [equalFold_comm]
        simpa [found, other] using ended

/-- The scan of a list that was written returns the first entry with the code, and reports that
there is none if there is none: it agrees with decoding the list and searching it. -/
theorem emitBytes_marshalList (env : Platform) (code : Bytes) {entries : List Entry}
    (valid : ∀ e ∈ entries, e.Valid) (named : ∀ e ∈ entries, e.countryCode ≠ [])
    (slice : (marshalList entries).length ≤ env.maxAlloc)
    (once : (marshalList entries).length ≤ env.maxRead)
    (placed : (marshalList entries).length ≤ env.maxOffset) :
    emitBytes env { content := marshalList entries } code =
        some (.returned (found env code entries)) ∧
      unmarshalList (marshalList entries) = some entries ∧
      ∀ e ∈ entries, unmarshal e.marshal = some e := by
  refine ⟨run_of_ends placed ?_, unmarshalList_marshalList valid,
    fun e mem => unmarshal_marshal (valid e mem)⟩
  have whole : marshalList entries = [] ++ marshalList entries := rfl
  exact chain_written named whole slice once placed

theorem emitBytes_marshalList_two :
    let entries : List Entry := [⟨[67, 78], [⟨2, .len [1, 2]⟩]⟩, ⟨[85, 83], [⟨3, .varint 1⟩]⟩]
    emitBytes asciiPlatform { content := marshalList entries } [117, 115] =
        some (.returned (.ok [10, 2, 85, 83, 24, 1])) ∧
      unmarshalList (marshalList entries) = some entries ∧
      ∀ e ∈ entries, unmarshal e.marshal = some e := by
  exact emitBytes_marshalList asciiPlatform [117, 115] (by decide) (by decide) (by decide)
    (by decide) (by decide)

end Scan

end TrojanGo.Geodata
