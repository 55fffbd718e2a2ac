import Mathlib.Algebra.Order.Ring.Int
import Mathlib.Data.Int.Init

/-!
# The delay after a failed sync

Durations are nanoseconds in 64 bits, so that an interval in seconds need not fit into one. The
delay doubles with every failure up to a bound, and jitter is added to it.
-/
namespace TrojanGo.NodeSync

def second : Int64 := 1000000000

def defaultSyncInterval : Int64 := 60 * second

def maxSyncBackoff : Int64 := 10 * 60 * second

def normalizedSyncInterval (intervalSec : Int64) : Int64 :=
  if intervalSec ≤ 0 then defaultSyncInterval else intervalSec * second

/-- The loop of `boundedSyncBackoff`, with the number of failures that it can still count. -/
def doubled : Nat → Int64 → Int64
  | 0, backoff => backoff
  | left + 1, backoff => if backoff < maxSyncBackoff then doubled left (backoff * 2) else backoff

/-- The delay without its jitter. -/
def steadyBackoff (interval failures : Int64) : Int64 :=
  let backoff := doubled (failures.toInt - 1).toNat interval
  if backoff > maxSyncBackoff then maxSyncBackoff else backoff

/-- `rand.Int64N`, which panics unless its bound is positive. -/
def int64N (draw : Nat) (bound : Int64) : Option Int64 :=
  if 0 < bound then some (.ofInt (draw % bound.toInt)) else none

def boundedSyncBackoff (draw : Nat) (interval failures : Int64) : Option Int64 :=
  if failures ≤ 0 then some 0
  else
    let backoff := steadyBackoff interval failures
    (int64N draw (backoff / 5 + 1)).map (backoff + ·)

/-- The interval as it is without a bound on durations. -/
def exactInterval (intervalSec : Int64) : Int :=
  if intervalSec ≤ 0 then 60 * 10 ^ 9 else intervalSec.toInt * 10 ^ 9

/-- The delay without its jitter, from a configured interval. -/
abbrev steady (intervalSec failures : Int64) : Int :=
  (steadyBackoff (normalizedSyncInterval intervalSec) failures).toInt

/-- The delays from a configured interval: none is cut to 64 bits, whatever is drawn as jitter. -/
structure Delays (intervalSec : Int64) : Prop where
  interval : (normalizedSyncInterval intervalSec).toInt = exactInterval intervalSec
  exponential : ∀ failures, 0 < failures → steady intervalSec failures =
    min (exactInterval intervalSec * 2 ^ (failures.toInt - 1).toNat) (10 * 60 * 10 ^ 9)
  returns : ∀ draw failures,
    boundedSyncBackoff draw (normalizedSyncInterval intervalSec) failures ≠ none
  bounded : ∀ draw failures delay, 0 < failures →
    boundedSyncBackoff draw (normalizedSyncInterval intervalSec) failures = some delay →
    (∃ jitter : Nat, delay.toInt = steady intervalSec failures + jitter) ∧ 0 < delay.toInt ∧
    delay.toInt ≤ 12 * 60 * 10 ^ 9 ∧
    min (exactInterval intervalSec) (10 * 60 * 10 ^ 9) ≤ delay.toInt
  monotone : ∀ failures failures', 0 < failures → failures ≤ failures' →
    steady intervalSec failures ≤ steady intervalSec failures'

/-! ### Without overflow -/

theorem maxSyncBackoff_toInt : maxSyncBackoff.toInt = 10 * 60 * 10 ^ 9 := by decide

theorem exactInterval_pos (intervalSec : Int64) : 0 < exactInterval intervalSec := by
  unfold exactInterval
  split
  · decide
  · next positive =>
    rw [Int64.le_iff_toInt_le, Int64.toInt_zero] at positive
    omega

theorem normalizedSyncInterval_exact {intervalSec : Int64}
    (fits : intervalSec.toInt * 10 ^ 9 < 2 ^ 63) :
    (normalizedSyncInterval intervalSec).toInt = exactInterval intervalSec := by
  unfold normalizedSyncInterval exactInterval
  split
  · decide
  · next positive =>
    rw [Int64.le_iff_toInt_le, Int64.toInt_zero] at positive
    have second : second.toInt = 10 ^ 9 := by decide
    rw [Int64.toInt_mul, second, Int.bmod_eq_of_le (by omega) (by omega)]

theorem doubled_exact (left : Nat) {backoff : Int64} (positive : 0 < backoff.toInt) :
    min (doubled left backoff).toInt maxSyncBackoff.toInt =
      min (backoff.toInt * 2 ^ left) maxSyncBackoff.toInt := by
  induction left generalizing backoff with
  | zero => rw [doubled, pow_zero, mul_one]
  | succ left ih =>
    rw [doubled]
    split
    · next below =>
      rw [Int64.lt_iff_toInt_lt, maxSyncBackoff_toInt] at below
      have twice : (backoff * 2).toInt = backoff.toInt * 2 := by
        have two : (2 : Int64).toInt = 2 := by decide
        rw [Int64.toInt_mul, two, Int.bmod_eq_of_le (by omega) (by omega)]
      rw [ih (by omega), twice, pow_succ', mul_assoc]
    · next above =>
      rw [Int64.lt_iff_toInt_lt, not_lt] at above
      have grown : backoff.toInt * 1 ≤ backoff.toInt * 2 ^ (left + 1) :=
        mul_le_mul_of_nonneg_left (one_le_pow₀ (by decide)) positive.le
      rw [min_eq_right above, min_eq_right (by omega)]

section

variable {intervalSec : Int64} (fits : intervalSec.toInt * 10 ^ 9 < 2 ^ 63)
include fits

theorem steady_exact (failures : Int64) : steady intervalSec failures =
    min (exactInterval intervalSec * 2 ^ (failures.toInt - 1).toNat) (10 * 60 * 10 ^ 9) := by
  have exact_ := normalizedSyncInterval_exact fits
  have positive := exactInterval_pos intervalSec
  have capped := doubled_exact (failures.toInt - 1).toNat (exact_ ▸ positive)
  rw [exact_, maxSyncBackoff_toInt] at capped
  rw [← capped, steady, steadyBackoff]
  split <;> next order =>
    rw [gt_iff_lt, Int64.lt_iff_toInt_lt, maxSyncBackoff_toInt] at order
    rw [min_def]
    grind [maxSyncBackoff_toInt]

theorem steady_bounds (failures : Int64) :
    min (exactInterval intervalSec) (10 * 60 * 10 ^ 9) ≤ steady intervalSec failures ∧
      steady intervalSec failures ≤ 10 * 60 * 10 ^ 9 := by
  have grown : exactInterval intervalSec * 1 ≤
      exactInterval intervalSec * 2 ^ (failures.toInt - 1).toNat :=
    mul_le_mul_of_nonneg_left (one_le_pow₀ (by decide)) (exactInterval_pos intervalSec).le
  rw [steady_exact fits]
  omega

/-- The jitter is at most a fifth of the delay. -/
theorem boundedSyncBackoff_some (draw : Nat) {failures : Int64} (failed : 0 < failures) :
    ∃ (delay : Int64) (jitter : Nat),
      boundedSyncBackoff draw (normalizedSyncInterval intervalSec) failures = some delay ∧
      delay.toInt = steady intervalSec failures + jitter ∧ (jitter : Int) ≤ 2 * 60 * 10 ^ 9 := by
  obtain ⟨lower, upper⟩ := steady_bounds fits failures
  have positive := exactInterval_pos intervalSec
  unfold steady at *
  generalize equal : steadyBackoff (normalizedSyncInterval intervalSec) failures = backoff at *
  have bound : (backoff / 5 + 1).toInt = backoff.toInt / 5 + 1 := by
    have five : (5 : Int64).toInt = 5 := by decide
    have one : (1 : Int64).toInt = 1 := by decide
    have fifth : (backoff / 5).toInt = backoff.toInt / 5 := by
      rw [Int64.toInt_div, five, Int.tdiv_eq_ediv_of_nonneg (by omega),
        Int.bmod_eq_of_le (by omega) (by omega)]
    rw [Int64.toInt_add, fifth, one, Int.bmod_eq_of_le (by omega) (by omega)]
  have small := Int.emod_lt_of_pos (draw : Int) (b := backoff.toInt / 5 + 1) (by omega)
  have nonneg := Int.emod_nonneg (draw : Int) (b := backoff.toInt / 5 + 1) (by omega)
  have draws : int64N draw (backoff / 5 + 1) =
      some (.ofInt (draw % (backoff.toInt / 5 + 1))) := by
    rw [int64N, bound, if_pos]
    rw [Int64.lt_iff_toInt_lt, bound, Int64.toInt_zero]
    omega
  refine ⟨backoff + .ofInt (draw % (backoff.toInt / 5 + 1)),
    (draw % (backoff.toInt / 5 + 1)).toNat, ?_, ?_, by omega⟩
  · rw [boundedSyncBackoff, if_neg (Int64.not_le.mpr failed)]
    simp only [equal, draws, Option.map_some]
  · rw [Int64.toInt_add, Int64.toInt_ofInt_of_le (by omega) (by omega),
      Int.bmod_eq_of_le (by omega) (by omega)]
    omega

end

/-- The delays are as they should be exactly if the configured interval fits into a duration. -/
theorem delays_iff (intervalSec : Int64) :
    Delays intervalSec ↔ intervalSec.toInt * 10 ^ 9 < 2 ^ 63 := by
  constructor
  · intro delays
    have exact_ := delays.interval
    have fits := (normalizedSyncInterval intervalSec).toInt_lt
    unfold exactInterval at exact_
    split at exact_
    · next none =>
      rw [Int64.le_iff_toInt_le, Int64.toInt_zero] at none
      omega
    · omega
  · intro fits
    have positive := exactInterval_pos intervalSec
    refine ⟨normalizedSyncInterval_exact fits, fun failures _ => steady_exact fits failures,
      fun draw failures => ?_, fun draw failures delay failed returned => ?_,
      fun failures failures' failed later => ?_⟩
    · by_cases failed : 0 < failures
      · obtain ⟨delay, _, returned, _⟩ := boundedSyncBackoff_some fits draw failed
        simp [returned]
      · simp [boundedSyncBackoff, Int64.not_lt.mp failed]
    · obtain ⟨delay', jitter, returned', sum, small⟩ := boundedSyncBackoff_some fits draw failed
      obtain rfl : delay' = delay := Option.some.inj (returned'.symm.trans returned)
      obtain ⟨lower, upper⟩ := steady_bounds fits failures
      exact ⟨⟨jitter, sum⟩, by omega, by omega, by omega⟩
    · rw [steady_exact fits, steady_exact fits]
      rw [Int64.le_iff_toInt_le] at later
      have grown : exactInterval intervalSec * 2 ^ (failures.toInt - 1).toNat ≤
          exactInterval intervalSec * 2 ^ (failures'.toInt - 1).toNat :=
        mul_le_mul_of_nonneg_left (pow_le_pow_right₀ (by decide) (by omega)) positive.le
      omega

/-- An interval of 9223372037 seconds is negative as a duration, and the draw of the jitter
panics. -/
theorem long_interval_panics :
    boundedSyncBackoff 0 (normalizedSyncInterval 9223372037) 1 = none := by
  decide

end TrojanGo.NodeSync
