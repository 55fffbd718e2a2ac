import Mathlib.Order.Monotone.Basic
import Mathlib.Data.String.Basic
import Mathlib.Tactic.Linarith

/-!
# Calendar dates

Months and days of the Gregorian calendar, counted from January 1970, and time zones as the way
from instants to days.
-/
namespace TrojanGo.Lib.Calendar

def isLeap (year : Nat) : Bool := year % 4 = 0 ∧ (year % 100 ≠ 0 ∨ year % 400 = 0)

/-- The year of a month. -/
def year (month : Nat) : Nat := 1970 + month / 12

/-- The number of days of a month. -/
def days (month : Nat) : Nat :=
  match month % 12 with
  | 1 => if isLeap (year month) then 29 else 28
  | 3 | 5 | 8 | 10 => 30
  | _ => 31

theorem days_pos (month : Nat) : 0 < days month := by
  unfold days
  split
  · split <;> simp
  all_goals simp

structure Date where
  month : Nat
  day : Nat
  positive : 0 < day
  within : day ≤ days month
  deriving DecidableEq

namespace Date

def next (date : Date) : Date :=
  if inside : date.day < days date.month then
    ⟨date.month, date.day + 1, Nat.succ_pos _, inside⟩
  else ⟨date.month + 1, 1, Nat.one_pos, days_pos _⟩

/-- The date of a day, counted from the first of January 1970. -/
def ofDay : Nat → Date
  | 0 => ⟨0, 1, Nat.one_pos, days_pos _⟩
  | d + 1 => (ofDay d).next

end Date

/-- The days before a month. -/
def firstDay : Nat → Nat
  | 0 => 0
  | month + 1 => firstDay month + days month

/-- From the first of a month on, the days of the month follow each other. -/
theorem ofDay_add {d k : Nat} (first : (Date.ofDay d).day = 1)
    (within : k < days (Date.ofDay d).month) :
    (Date.ofDay (d + k)).month = (Date.ofDay d).month ∧ (Date.ofDay (d + k)).day = k + 1 := by
  induction k with
  | zero => exact ⟨rfl, first⟩
  | succ k ih =>
    obtain ⟨month, day⟩ := ih (by omega)
    rw [← Nat.add_assoc, Date.ofDay, Date.next, dif_pos (by rw [month, day]; omega)]
    exact ⟨month, congrArg (· + 1) day⟩

theorem ofDay_firstDay (month : Nat) :
    (Date.ofDay (firstDay month)).month = month ∧ (Date.ofDay (firstDay month)).day = 1 := by
  induction month with
  | zero => exact ⟨rfl, rfl⟩
  | succ month ih =>
    -- the day after the last one of the month before
    have positive := days_pos month
    obtain ⟨inMonth, day⟩ := @ofDay_add _ (days month - 1) ih.2 (by rw [ih.1]; omega)
    have after : firstDay (month + 1) = firstDay month + (days month - 1) + 1 := by
      rw [firstDay]
      omega
    rw [ih.1] at inMonth
    rw [after, Date.ofDay, Date.next, dif_neg (by rw [inMonth, day]; omega)]
    exact ⟨congrArg (· + 1) inMonth, rfl⟩

/-- Every day of a month is the date of some day. -/
theorem ofDay_surjective {month day : Nat} (positive : 0 < day) (within : day ≤ days month) :
    (Date.ofDay (firstDay month + (day - 1))).month = month ∧
      (Date.ofDay (firstDay month + (day - 1))).day = day := by
  obtain ⟨inMonth, first⟩ := ofDay_firstDay month
  obtain ⟨same, nth⟩ := @ofDay_add _ (day - 1) first (by rw [inMonth]; omega)
  exact ⟨same.trans inMonth, by omega⟩

theorem month_monotone : Monotone fun d => (Date.ofDay d).month := by
  apply monotone_nat_of_le_succ
  intro d
  simp only [Date.ofDay, Date.next]
  split <;> simp

/-! ### Texts -/

def monthText (i : Nat) : String :=
  ["-01", "-02", "-03", "-04", "-05", "-06", "-07", "-08", "-09", "-10", "-11", "-12"].getD i ""

/-- The layout 2006-01. -/
def format (month : Nat) : String := (year month).repr ++ monthText (month % 12)

theorem monthText_injective : ∀ i < 12, ∀ j < 12, (monthText i).toList.length = 3 ∧
    ((monthText i).toList = (monthText j).toList → i = j) := by
  decide

theorem format_injective : Function.Injective format := by
  intro m m' same
  have lists := congrArg String.toList same
  simp only [format, String.toList_append] at lists
  have text := monthText_injective (m % 12) (by omega) (m' % 12) (by omega)
  have text' := monthText_injective (m' % 12) (by omega) (m % 12) (by omega)
  obtain ⟨years, texts⟩ := List.append_inj' lists (text.1.trans text'.1.symm)
  -- the texts of the months have one length, so the years can be cut off and read back
  have sameYear : year m = year m' := by
    simpa [Nat.repr, Nat.ofDigitChars_toDigits] using
      congrArg (fun digits => Nat.ofDigitChars 10 digits 0) years
  have sameMonth := text.2 texts
  simp only [year] at sameYear
  omega

/-! ### Time zones -/

/-- The local days as spans of time, none of them shorter than `shortest`. -/
structure Zone (shortest : Int) where
  day : Int → Nat
  midnight : Nat → Int
  spans : ∀ t, midnight 0 ≤ t → midnight (day t) ≤ t ∧ t < midnight (day t + 1)
  long : ∀ d, midnight d + shortest ≤ midnight (d + 1)

namespace Zone

variable {shortest : Int} (zone : Zone shortest)

def date (t : Int) : Date := .ofDay (zone.day t)

theorem midnight_monotone (positive : 0 ≤ shortest) {d d' : Nat} (le : d ≤ d') :
    zone.midnight d ≤ zone.midnight d' := by
  refine monotone_nat_of_le_succ ?_ le
  intro d
  have := zone.long d
  omega

variable {zone}

theorem day_monotone (positive : 0 ≤ shortest) {t t' : Int} (start : zone.midnight 0 ≤ t)
    (le : t ≤ t') : zone.day t ≤ zone.day t' := by
  by_contra later
  push Not at later
  have mono := zone.midnight_monotone positive (show zone.day t' + 1 ≤ zone.day t by omega)
  have before := (zone.spans t start).1
  have after := (zone.spans t' (by omega)).2
  omega

theorem day_eq (positive : 0 ≤ shortest) {t : Int} {d : Nat} (after : zone.midnight d ≤ t)
    (before : t < zone.midnight (d + 1)) : zone.day t = d := by
  have start := (zone.midnight_monotone positive (Nat.zero_le d)).trans after
  obtain ⟨lower, upper⟩ := zone.spans t start
  by_contra different
  rcases Nat.lt_or_gt_of_ne different with less | greater
  · have mono := zone.midnight_monotone positive (show zone.day t + 1 ≤ d by omega)
    omega
  · have mono := zone.midnight_monotone positive (show d + 1 ≤ zone.day t by omega)
    omega

end Zone

end TrojanGo.Lib.Calendar
