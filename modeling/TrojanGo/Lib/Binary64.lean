import Mathlib.Algebra.Order.Ring.Nat
import Mathlib.Data.Int.Basic

/-!
# IEEE 754 binary64 values

A finite value is a signed mantissa times a power of two; conversion and multiplication round to
53 bits, ties to even. Results below the normal range keep all 53 bits: they are smaller than one,
so no comparison with an integer and no truncation can tell the difference.
-/
namespace TrojanGo.Lib

inductive Binary64 where
  | nan
  | inf (negative : Bool)
  | finite (negative : Bool) (mantissa : Nat) (exponent : Int)
  deriving DecidableEq, Repr

namespace Binary64

def precision : Nat := 53

/-- The number of binary digits beyond the precision. -/
def excess (mantissa : Nat) : Nat := mantissa.log2 + 1 - precision

/-- Round to nearest, ties to even. -/
def round (negative : Bool) (mantissa : Nat) (exponent : Int) : Binary64 :=
  let k := excess mantissa
  let q := mantissa / 2 ^ k
  let r := mantissa % 2 ^ k
  -- without excess digits the remainder is zero and nothing is rounded
  let up := 2 ^ k < 2 * r ∨ (2 * r = 2 ^ k ∧ q % 2 = 1)
  .finite negative (if up then q + 1 else q) (exponent + k)

def ofNat (n : Nat) : Binary64 := round false n 0

def mul : Binary64 → Binary64 → Binary64
  | .nan, _ | _, .nan => .nan
  | .inf a, .inf b => .inf (a != b)
  | .inf a, .finite b m _ | .finite b m _, .inf a => if m = 0 then .nan else .inf (a != b)
  | .finite a m e, .finite b n f => round (a != b) (m * n) (e + f)

/-- Comparison with a natural number; every comparison with a NaN is false. -/
def leNat : Binary64 → Nat → Bool
  | .nan, _ => false
  | .inf negative, _ => negative
  | .finite true _ _, _ => true
  | .finite false m e, n => if 0 ≤ e then m * 2 ^ e.toNat ≤ n else m ≤ n * 2 ^ (-e).toNat

def geNat : Binary64 → Nat → Bool
  | .nan, _ => false
  | .inf negative, _ => !negative
  | .finite true m _, n => m = 0 ∧ n = 0
  | .finite false m e, n => if 0 ≤ e then n ≤ m * 2 ^ e.toNat else n * 2 ^ (-e).toNat ≤ m

def gtNat (x : Binary64) (n : Nat) : Bool := x.geNat n && !x.leNat n

def eqNat (x : Binary64) (n : Nat) : Bool := x.leNat n && x.geNat n

def isNegative : Binary64 → Bool
  | .nan => false
  | .inf negative => negative
  | .finite negative m _ => negative && decide (m ≠ 0)

/-- Conversion to an integer drops the fraction; other values have no integer. -/
def truncate : Binary64 → Int
  | .finite negative m e =>
    let magnitude := if 0 ≤ e then m * 2 ^ e.toNat else m / 2 ^ (-e).toNat
    if negative then -magnitude else magnitude
  | _ => 0

theorem truncate_bounds {x : Binary64} {n : Nat} (below : x.geNat n = false)
    (positive : x.isNegative = false) (number : x ≠ .nan) :
    0 ≤ x.truncate ∧ x.truncate < n := by
  cases x with
  | nan => exact absurd rfl number
  | inf negative =>
    cases negative with
    | true => simp [isNegative] at positive
    | false => simp [geNat] at below
  | finite negative m e =>
    cases negative with
    | true =>
      have zero : m = 0 := by simpa [isNegative] using positive
      have above : n ≠ 0 := by simpa [geNat, zero] using below
      have nothing : truncate (.finite true m e) = 0 := by simp [truncate, zero]
      omega
    | false =>
      by_cases whole : 0 ≤ e
      · have smaller : m * 2 ^ e.toNat < n := by simpa [geNat, whole] using below
        simp only [truncate, whole, if_true, Bool.false_eq_true, if_false]
        omega
      · have bounded : m < n * 2 ^ (-e).toNat := by simpa [geNat, whole] using below
        have smaller : m / 2 ^ (-e).toNat < n := Nat.div_lt_of_lt_mul (by rwa [Nat.mul_comm])
        simp only [truncate, whole, if_false]
        exact ⟨Int.natCast_nonneg _, Int.ofNat_lt.mpr smaller⟩

end Binary64

end TrojanGo.Lib
