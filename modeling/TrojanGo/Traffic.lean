import Mathlib.Algebra.Order.Ring.Nat
import Mathlib.Data.List.AList

/-!
# Traffic amounts

Received bytes are the user's upload, sent bytes the download. Amounts are natural numbers; the
places where the source adds 64-bit words wrap or check explicitly.
-/
namespace TrojanGo

@[ext] structure Traffic where
  up : Nat
  down : Nat
  deriving DecidableEq, Repr

namespace Traffic

instance : Zero Traffic := ⟨⟨0, 0⟩⟩
instance : Add Traffic := ⟨fun a b => ⟨a.up + b.up, a.down + b.down⟩⟩
instance : LE Traffic := ⟨fun a b => a.up ≤ b.up ∧ a.down ≤ b.down⟩

@[simp] theorem zero_up : (0 : Traffic).up = 0 := rfl
@[simp] theorem zero_down : (0 : Traffic).down = 0 := rfl
@[simp] theorem add_up (a b : Traffic) : (a + b).up = a.up + b.up := rfl
@[simp] theorem add_down (a b : Traffic) : (a + b).down = a.down + b.down := rfl

instance (a b : Traffic) : Decidable (a ≤ b) := inferInstanceAs (Decidable (_ ∧ _))

instance : AddCommMonoid Traffic where
  add_assoc a b c := by ext <;> simp [Nat.add_assoc]
  zero_add a := by ext <;> simp
  add_zero a := by ext <;> simp
  add_comm a b := by ext <;> simp [Nat.add_comm]
  nsmul := nsmulRec

end Traffic

/-- The direction of traffic as the user sees it. -/
inductive Dir where
  | up
  | down
  deriving DecidableEq, Repr

def Traffic.get (t : Traffic) : Dir → Nat
  | .up => t.up
  | .down => t.down

@[simp] theorem Traffic.get_zero (d : Dir) : (0 : Traffic).get d = 0 := by
  cases d <;> rfl

/-- A decoded traffic map together with the order in which a range loop visits it. -/
abbrev TrafficMap := AList (fun _ : String => Traffic)

/-- One more than the largest value of an unsigned 64-bit word. -/
def word : Nat := 2 ^ 64

end TrojanGo
