import Mathlib.Data.List.Basic

/-!
# Texts

What the source uses of Go's packages for texts and numbers.
-/
namespace TrojanGo

abbrev Bytes := List UInt8

/-- `unicode.IsSpace`. -/
def isSpace (c : Char) : Bool :=
  c.toNat ∈ [0x09, 0x0a, 0x0b, 0x0c, 0x0d, 0x20, 0x85, 0xa0, 0x1680, 0x2028, 0x2029, 0x202f, 0x205f,
    0x3000] ∨ 0x2000 ≤ c.toNat ∧ c.toNat ≤ 0x200a

/-- `strings.TrimSpace`. -/
def trimSpace (s : String) : String :=
  String.ofList ((s.toList.dropWhile isSpace).reverse.dropWhile isSpace).reverse

section Numbers

variable {α : Type} (code : α → Nat)

/-- A number in decimal digits; `code` gives the code points. -/
def digits : List α → Option Nat
  | [] => none
  | text => text.foldl (fun value c => value.bind fun n =>
      if 48 ≤ code c ∧ code c ≤ 57 then some (n * 10 + (code c - 48)) else none) (some 0)

/-- `strconv.Atoi`, without a bound on the number. -/
def atoi : List α → Option Int
  | [] => none
  | sign :: text =>
    if code sign = 43 then (digits code text).map Int.ofNat
    else if code sign = 45 then (digits code text).map fun n => -Int.ofNat n
    else (digits code (sign :: text)).map Int.ofNat

end Numbers

end TrojanGo
