import Mathlib.Algebra.Order.Ring.Nat
import Mathlib.Data.List.Basic

/-!
# The wire format of protocol buffers

A message is a sequence of fields. Variable-length integers hold seven bits in a byte, the lowest
first, and every byte but the last has its highest bit set.
-/
namespace TrojanGo.Lib.Protobuf

open List

/-! ### Variable-length integers -/

/-- At most so many bytes, and one more. -/
def varintIn : Nat → Nat → List UInt8
  | 0, n => [UInt8.ofNat n]
  | k + 1, n =>
    if n < 128 then [UInt8.ofNat n] else UInt8.ofNat (n % 128 + 128) :: varintIn k (n / 128)

/-- A 64-bit integer takes ten bytes at most. -/
def varint (n : Nat) : List UInt8 := varintIn 9 n

inductive VarintError where
  | truncated
  | overflow
  deriving DecidableEq

/-- The value, and the number of bytes it takes. The last byte of a full-length integer has a
single bit. -/
def consumeVarintIn : Nat → List UInt8 → Except VarintError (Nat × Nat)
  | _, [] => .error .truncated
  | 0, b :: _ => if b < 2 then .ok (b.toNat, 1) else .error .overflow
  | k + 1, b :: rest =>
    if b < 128 then .ok (b.toNat, 1)
    else
      match consumeVarintIn k rest with
      | .ok (v, n) => .ok (b.toNat - 128 + 128 * v, n + 1)
      | .error e => .error e

def consumeVarint (bytes : List UInt8) : Except VarintError (Nat × Nat) := consumeVarintIn 9 bytes

variable {k n : Nat} (rest : List UInt8)

theorem consumeVarintIn_varintIn (small : n < 2 ^ (7 * k + 1)) :
    consumeVarintIn k (varintIn k n ++ rest) = .ok (n, (varintIn k n).length) := by
  induction k generalizing n with
  | zero =>
    have last : UInt8.ofNat n < 2 := by
      rw [UInt8.lt_iff_toNat_lt, UInt8.toNat_ofNat']
      exact Nat.lt_of_le_of_lt (Nat.mod_le _ _) (by simpa using small)
    have value : (UInt8.ofNat n).toNat = n := by
      rw [UInt8.toNat_ofNat', Nat.mod_eq_of_lt (by omega)]
    simp [varintIn, consumeVarintIn, last, value]
  | succ k ih =>
    by_cases short : n < 128
    · have value : (UInt8.ofNat n).toNat = n := by
        rw [UInt8.toNat_ofNat', Nat.mod_eq_of_lt (by omega)]
      have last : UInt8.ofNat n < 128 := by
        rw [UInt8.lt_iff_toNat_lt, value]
        exact short
      simp [varintIn, short, consumeVarintIn, last, value]
    · have value : (UInt8.ofNat (n % 128 + 128)).toNat = n % 128 + 128 := by
        rw [UInt8.toNat_ofNat', Nat.mod_eq_of_lt (by omega)]
      have more : ¬ UInt8.ofNat (n % 128 + 128) < 128 := by
        rw [UInt8.lt_iff_toNat_lt, value]
        simp
      have next : n / 128 < 2 ^ (7 * k + 1) := by grind
      simp only [varintIn, if_neg short, cons_append, consumeVarintIn, if_neg more, ih next,
        value, length_cons]
      congr 2
      omega

/-- What was written is read back, whatever follows. -/
theorem consumeVarint_varint (small : n < 2 ^ 64) :
    consumeVarint (varint n ++ rest) = .ok (n, (varint n).length) :=
  consumeVarintIn_varintIn rest small

variable {bytes : List UInt8}

/-- Bytes that say that more follows, and a last one that does not. -/
inductive Terminated : List UInt8 → Prop where
  | last {b : UInt8} (small : ¬ 127 < b) : Terminated [b]
  | more {b : UInt8} {bytes : List UInt8} (large : 127 < b) (rest : Terminated bytes) :
      Terminated (b :: bytes)

theorem Terminated.intro {init : List UInt8} {last : UInt8} (large : ∀ b ∈ init, 127 < b)
    (small : ¬ 127 < last) : Terminated (init ++ [last]) := by
  induction init with
  | nil => exact .last small
  | cons b init ih =>
    obtain ⟨here, large⟩ := forall_mem_cons.mp large
    exact .more here (ih large)

/-- An integer that is read from such bytes takes all of them. -/
theorem consumeVarintIn_length {v : Nat} (terminated : Terminated bytes)
    (read : consumeVarintIn k bytes = .ok (v, n)) : n = bytes.length := by
  induction terminated generalizing k v n with
  | last small =>
    cases k with
    | zero | succ =>
      simp only [consumeVarintIn] at read
      split at read <;> cases read
      rfl
  | @more b bytes large rest ih =>
    rw [UInt8.lt_iff_toNat_lt] at large
    have large : 127 < b.toNat := large
    cases k with
    | zero =>
      simp only [consumeVarintIn, UInt8.lt_iff_toNat_lt] at read
      split at read
      next last =>
        have : b.toNat < 2 := last
        omega
      · cases read
    | succ k =>
      simp only [consumeVarintIn, UInt8.lt_iff_toNat_lt] at read
      split at read
      next last =>
        have : b.toNat < 128 := last
        omega
      · split at read
        next v' n' inner =>
          cases read
          rw [ih inner, length_cons]
        · cases read

theorem consumeVarint_length {v : Nat} (terminated : Terminated bytes)
    (read : consumeVarint bytes = .ok (v, n)) : n = bytes.length :=
  consumeVarintIn_length terminated read

theorem varintIn_terminated (small : n < 2 ^ (7 * k + 1)) :
    Terminated (varintIn k n) := by
  induction k generalizing n with
  | zero =>
    refine .last ?_
    rw [UInt8.lt_iff_toNat_lt, UInt8.toNat_ofNat', Nat.mod_eq_of_lt (by omega)]
    have : n < 127 := by omega
    exact Nat.not_lt.mpr (Nat.le_of_lt this)
  | succ k ih =>
    rw [varintIn]
    split
    next short =>
      refine .last ?_
      rw [UInt8.lt_iff_toNat_lt, UInt8.toNat_ofNat', Nat.mod_eq_of_lt (by omega)]
      exact Nat.not_lt.mpr (Nat.le_of_lt_succ short)
    · refine .more ?_ (ih ?_)
      · rw [UInt8.lt_iff_toNat_lt, UInt8.toNat_ofNat', Nat.mod_eq_of_lt (by omega)]
        show 127 < n % 128 + 128
        omega
      · grind

theorem varint_terminated (small : n < 2 ^ 64) : Terminated (varint n) :=
  varintIn_terminated small

/-! ### Fields -/

inductive Value where
  | varint (n : Nat)
  | fixed64 (bytes : List UInt8)
  | len (bytes : List UInt8)
  | fixed32 (bytes : List UInt8)
  deriving DecidableEq

def Value.wireType : Value → Nat
  | .varint _ => 0
  | .fixed64 _ => 1
  | .len _ => 2
  | .fixed32 _ => 5

def Value.encode : Value → List UInt8
  | .varint n => Protobuf.varint n
  | .fixed64 bytes | .fixed32 bytes => bytes
  | .len bytes => Protobuf.varint bytes.length ++ bytes

/-- The value is one that its wire type can express. -/
def Value.Valid : Value → Prop
  | .varint n => n < 2 ^ 64
  | .fixed64 bytes => bytes.length = 8
  | .len bytes => bytes.length < 2 ^ 64
  | .fixed32 bytes => bytes.length = 4

instance : (value : Value) → Decidable value.Valid
  | .varint n => inferInstanceAs (Decidable (n < 2 ^ 64))
  | .fixed64 bytes => inferInstanceAs (Decidable (bytes.length = 8))
  | .len bytes => inferInstanceAs (Decidable (bytes.length < 2 ^ 64))
  | .fixed32 bytes => inferInstanceAs (Decidable (bytes.length = 4))

structure Field where
  number : Nat
  value : Value
  deriving DecidableEq

namespace Field

structure Valid (f : Field) : Prop where
  positive : 0 < f.number
  small : f.number < 2 ^ 29
  value : f.value.Valid

instance (f : Field) : Decidable f.Valid :=
  decidable_of_iff (0 < f.number ∧ f.number < 2 ^ 29 ∧ f.value.Valid)
    ⟨fun ⟨positive, small, value⟩ => ⟨positive, small, value⟩,
      fun ⟨positive, small, value⟩ => ⟨positive, small, value⟩⟩

def tag (f : Field) : Nat := 8 * f.number + f.value.wireType

def encode (f : Field) : List UInt8 := varint f.tag ++ f.value.encode

end Field

/-- Take so many bytes. -/
def takeBytes (n : Nat) (bytes : List UInt8) : Option (List UInt8 × List UInt8) :=
  if n ≤ bytes.length then some (bytes.take n, bytes.drop n) else none

def takeVarint (bytes : List UInt8) : Option (Nat × List UInt8) :=
  match consumeVarint bytes with
  | .ok (v, n) => some (v, bytes.drop n)
  | .error _ => none

def decodeValue (wireType : Nat) (bytes : List UInt8) : Option (Value × List UInt8) :=
  match wireType with
  | 0 => (takeVarint bytes).map fun (n, rest) => (.varint n, rest)
  | 1 => (takeBytes 8 bytes).map fun (bytes, rest) => (.fixed64 bytes, rest)
  | 2 => (takeVarint bytes).bind fun (n, rest) =>
    (takeBytes n rest).map fun (bytes, rest) => (.len bytes, rest)
  | 5 => (takeBytes 4 bytes).map fun (bytes, rest) => (.fixed32 bytes, rest)
  | _ => none

def decodeField (bytes : List UInt8) : Option (Field × List UInt8) :=
  (takeVarint bytes).bind fun (tag, rest) =>
    if tag / 8 = 0 ∨ 2 ^ 29 ≤ tag / 8 then none
    else (decodeValue (tag % 8) rest).map fun (value, rest) => (⟨tag / 8, value⟩, rest)

/-- A message, field by field; a field has a byte at least. -/
def decodeIn : Nat → List UInt8 → Option (List Field)
  | _, [] => some []
  | 0, _ :: _ => none
  | k + 1, b :: bytes =>
    (decodeField (b :: bytes)).bind fun (field, rest) => (decodeIn k rest).map (field :: ·)

def decode (bytes : List UInt8) : Option (List Field) := decodeIn bytes.length bytes

def encode (fields : List Field) : List UInt8 := fields.flatMap Field.encode

@[simp] theorem encode_nil : encode [] = [] := rfl

@[simp] theorem encode_cons (f : Field) (fields : List Field) :
    encode (f :: fields) = f.encode ++ encode fields := rfl

theorem takeVarint_varint (small : n < 2 ^ 64) :
    takeVarint (varint n ++ rest) = some (n, rest) := by
  simp [takeVarint, consumeVarint_varint rest small]

theorem takeBytes_append (length : bytes.length = n) :
    takeBytes n (bytes ++ rest) = some (bytes, rest) := by
  subst length
  simp [takeBytes]

theorem decodeValue_encode {value : Value} (valid : value.Valid) :
    decodeValue value.wireType (value.encode ++ rest) = some (value, rest) := by
  cases value with
  | varint n => simp [decodeValue, Value.wireType, Value.encode, takeVarint_varint rest valid]
  | fixed64 | fixed32 =>
    simp [decodeValue, Value.wireType, Value.encode, takeBytes_append rest valid]
  | len bytes =>
    simp [decodeValue, Value.wireType, Value.encode, takeVarint_varint _ valid,
      takeBytes_append rest rfl]

theorem decodeField_encode {f : Field} (valid : f.Valid) :
    decodeField (f.encode ++ rest) = some (f, rest) := by
  have type : f.value.wireType < 8 := by cases f.value <;> simp [Value.wireType]
  have number : f.tag / 8 = f.number := by
    unfold Field.tag
    omega
  have wireType : f.tag % 8 = f.value.wireType := by
    unfold Field.tag
    omega
  have positive := valid.positive
  have small := valid.small
  have fits : f.tag < 2 ^ 64 := by
    unfold Field.tag
    omega
  have known : ¬ (f.number = 0 ∨ 2 ^ 29 ≤ f.number) := by omega
  rw [Field.encode, append_assoc, decodeField, takeVarint_varint _ fits]
  simp only [Option.bind_some, number, wireType, if_neg known,
    decodeValue_encode rest valid.value, Option.map_some]

theorem varint_ne_nil (n : Nat) : varint n ≠ [] := by
  unfold varint varintIn
  split <;> simp

variable {fields : List Field}

theorem decodeIn_encode (valid : ∀ f ∈ fields, f.Valid) (enough : (encode fields).length ≤ k) :
    decodeIn k (encode fields) = some fields := by
  induction fields generalizing k with
  | nil => cases k <;> rfl
  | cons f fields ih =>
    obtain ⟨here, valid⟩ := forall_mem_cons.mp valid
    have filled : f.encode ≠ [] := by simp [Field.encode, varint_ne_nil]
    have positive := length_pos_of_ne_nil filled
    rw [encode_cons, length_append] at enough
    obtain ⟨k, rfl⟩ : ∃ k', k = k' + 1 := ⟨k - 1, by omega⟩
    obtain ⟨b, bytes, whole⟩ : ∃ b bytes, encode (f :: fields) = b :: bytes :=
      exists_cons_of_ne_nil (by simp [filled])
    rw [whole, decodeIn, ← whole, encode_cons, decodeField_encode _ here]
    simp only [Option.bind_some, ih valid (show (encode fields).length ≤ k by omega),
      Option.map_some]

/-- A message that was written is read back. -/
theorem decode_encode (valid : ∀ f ∈ fields, f.Valid) :
    decode (encode fields) = some fields :=
  decodeIn_encode valid (Nat.le_refl _)

end TrojanGo.Lib.Protobuf
