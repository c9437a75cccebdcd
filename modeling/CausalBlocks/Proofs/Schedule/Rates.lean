import CausalBlocks.Proofs.Scalar.Exact
import CausalBlocks.Schedule.Basic
import Mathlib.Algebra.Order.Round
import Mathlib.Tactic.FieldSimp

/-!
# Rates

A block with a rate computes when the time is a multiple of it, up to a tolerance that is
absolute up to time one and grows with the time beyond. On a clock with a fixed step, a rate of
several steps is met once in so many iterations, as long as the tolerance stays below one step.
-/

namespace CausalBlocks

variable {α : Type} [Scalar α] [ExactMagnitude α] {step : α} {period k : ℕ}

open Exact ExactMagnitude

/-- How many iterations there are between an iteration and the nearest multiple of a period. -/
def offPeriod (period k : ℕ) : ℕ := min (k % period) (period - k % period)

/-- How far from a multiple of a rate a time may be for a block to compute. -/
noncomputable def rateTolerance (time : ℝ) : ℝ := ((10 : ℕ) : ℝ) ^ (-6 : ℤ) * max |time| 1

theorem rateTolerance_eq (time : ℝ) : rateTolerance time = 10 ^ (-6 : ℤ) * max |time| 1 := by
  rw [rateTolerance, Nat.cast_ofNat]

theorem offPeriod_pos (hperiod : 0 < period) (hnot : ¬period ∣ k) : 0 < offPeriod period k := by
  have hlt := Nat.mod_lt k hperiod
  have hrest : k % period ≠ 0 := fun h => hnot (Nat.dvd_of_mod_eq_zero h)
  rw [offPeriod]
  omega

theorem offPeriod_of_dvd (h : period ∣ k) : offPeriod period k = 0 := by
  rw [offPeriod, Nat.mod_eq_zero_of_dvd h, Nat.zero_min]

/-- The distance of a fraction from the nearest integer, in units of its denominator. -/
theorem abs_div_sub_round (hperiod : 0 < period) :
    |(k / period : ℝ) - round (k / period : ℝ)| * period = offPeriod period k := by
  have hne : (period : ℝ) ≠ 0 := by exact_mod_cast hperiod.ne'
  have hle : k % period ≤ period := (Nat.mod_lt k hperiod).le
  rw [abs_sub_round_eq_min, Int.fract_div_natCast_eq_div_natCast_mod,
    min_mul_of_nonneg _ _ (Nat.cast_nonneg period), sub_mul, div_mul_cancel₀ _ hne, one_mul,
    ← Nat.cast_sub hle, ← Nat.cast_min, offPeriod]

theorem value_round_of_nonneg {x : α} (h : 0 ≤ value x) :
    value (Scalar.round x) = round (value x) := by
  rw [value_round, if_neg (not_lt.mpr h), round_eq]

/-- The time of an iteration is as far from the nearest multiple of the rate as the iteration is
from the nearest multiple of the period. -/
theorem value_time_sub_nearest (hstep : 0 < step) (hperiod : 0 < period) :
    |value ((k : α) * step - Scalar.round (k * step / (period * step)) * (period * step))| =
      offPeriod period k * value step := by
  rw [lt_iff, value_zero] at hstep
  have hrate : value ((period : α) * step) = period * value step := by
    rw [value_mul, value_natCast]
  have htime : value ((k : α) * step) = k * value step := by rw [value_mul, value_natCast]
  have hne : value ((period : α) * step) ≠ 0 := by
    rw [hrate]
    positivity
  have hratio : value ((k : α) * step / (period * step)) = k / period := by
    rw [value_div _ _ hne, hrate, htime, mul_div_mul_right _ _ hstep.ne']
  have hround : value (Scalar.round ((k : α) * step / (period * step))) =
      round (k / period : ℝ) := by
    rw [value_round_of_nonneg (by rw [hratio]; positivity), hratio]
  have hfactor : (k : ℝ) * value step - round (k / period : ℝ) * (period * value step) =
      ((k / period : ℝ) - round (k / period : ℝ)) * period * value step := by
    field_simp
  calc |value ((k : α) * step - Scalar.round (k * step / (period * step)) * (period * step))|
      = |((k / period : ℝ) - round (k / period : ℝ)) * period * value step| := by
        rw [value_sub, htime, value_mul (Scalar.round _), hround, hrate, hfactor]
    _ = |(k / period : ℝ) - round (k / period : ℝ)| * period * value step := by
        rw [abs_mul, abs_mul, Nat.abs_cast, abs_of_pos hstep]
    _ = offPeriod period k * value step := by rw [abs_div_sub_round hperiod]

/-- After the first iteration, a block with a rate computes if the nearest multiple of the rate is
within the tolerance. -/
theorem mustCompute_eq_true_iff {rate time : α} (hk : 0 < k) :
    mustCompute (some rate) k time = true ↔
      |value (time - Scalar.round (time / rate) * rate)| ≤ rateTolerance (value time) := by
  have hliteral : value (1e-6 : α) = 10 ^ (-6 : ℤ) := by
    rw [value_scientific]
    norm_num
  have hfirst : decide (k = 0) = false := decide_eq_false hk.ne'
  simp only [mustCompute, hfirst, Bool.false_or, decide_eq_true_eq]
  rw [le_iff, value_mul, value_abs, hliteral, value_greater, value_abs, value_one,
    rateTolerance_eq]

/-- Early in a run, and with steps that are not too small, the tolerance is less than a step. -/
theorem rateTolerance_lt {step : ℝ} (hk : k < 10 ^ 6) (hstep : 10 ^ (-6 : ℤ) < step) :
    rateTolerance (k * step) < step := by
  have hpos : 0 < step := lt_trans (by positivity) hstep
  have hearly : (k : ℝ) < 10 ^ 6 := by exact_mod_cast hk
  have hgrown : 10 ^ (-6 : ℤ) * (k * step) < step := by
    have hlt : (k : ℝ) * step < 10 ^ 6 * step := mul_lt_mul_of_pos_right hearly hpos
    calc (10 : ℝ) ^ (-6 : ℤ) * (k * step) < 10 ^ (-6 : ℤ) * (10 ^ 6 * step) :=
          mul_lt_mul_of_pos_left hlt (by positivity)
      _ = step := by norm_num [← mul_assoc]
  rw [rateTolerance_eq, abs_of_nonneg (by positivity)]
  rcases max_choice ((k : ℝ) * step) 1 with hmax | hmax
  · rwa [hmax]
  · rwa [hmax, mul_one]

/-- A block whose rate is some number of steps computes when that number of iterations divides the
iteration, and otherwise if the tolerance reaches the nearest one that it divides. So before the
millionth iteration, with steps above a millionth, it computes once in so many iterations. -/
theorem mustCompute_multiple_iff (hstep : 0 < step) (hperiod : 1 ≤ period) (hk : 1 ≤ k) :
    (mustCompute (some (period * step)) k (k * step) = true ↔ period ∣ k ∨
      offPeriod period k * value step ≤ rateTolerance (k * value step)) ∧
    (k < 10 ^ 6 → 10 ^ (-6 : ℤ) < value step →
      (mustCompute (some (period * step)) k (k * step) = true ↔ period ∣ k)) := by
  have hpos : 0 < value step := by rwa [lt_iff, value_zero] at hstep
  have htime : value ((k : α) * step) = k * value step := by rw [value_mul, value_natCast]
  have hnear : mustCompute (some (period * step)) k (k * step) = true ↔
      offPeriod period k * value step ≤ rateTolerance (k * value step) := by
    rw [mustCompute_eq_true_iff hk, value_time_sub_nearest hstep hperiod, htime]
  have hmultiple : period ∣ k → offPeriod period k * value step ≤ rateTolerance (k * value step) := by
    intro hdvd
    rw [offPeriod_of_dvd hdvd, Nat.cast_zero, zero_mul, rateTolerance_eq]
    positivity
  constructor
  · rw [hnear]
    exact ⟨Or.inr, fun h => h.elim hmultiple id⟩
  · intro hearly hlarge
    refine hnear.trans ⟨fun h => ?_, hmultiple⟩
    -- off the period by one step at least, the time is beyond the tolerance
    by_contra hnot
    have hone : (1 : ℝ) ≤ offPeriod period k := by exact_mod_cast offPeriod_pos hperiod hnot
    have hfar : value step ≤ offPeriod period k * value step := le_mul_of_one_le_left hpos.le hone
    exact absurd (hfar.trans h) (not_le.mpr (rateTolerance_lt hearly hlarge))

/-- With steps of a half and a rate of three of them, iteration six is due and iteration seven is
not. -/
theorem mustCompute_multiple_three :
    mustCompute (some ((3 : ℕ) * (1 / 2 : ℚ))) 6 ((6 : ℕ) * (1 / 2)) = true ∧
      mustCompute (some ((3 : ℕ) * (1 / 2 : ℚ))) 7 ((7 : ℕ) * (1 / 2)) ≠ true := by
  have hstep : (0 : ℚ) < 1 / 2 := by norm_num
  have hlarge : (10 : ℝ) ^ (-6 : ℤ) < value (1 / 2 : ℚ) := by
    change _ < ((1 / 2 : ℚ) : ℝ)
    norm_num
  have hdue : mustCompute (some ((3 : ℕ) * (1 / 2 : ℚ))) 6 ((6 : ℕ) * (1 / 2)) = true ↔ 3 ∣ 6 :=
    (mustCompute_multiple_iff hstep (by norm_num) (by norm_num)).2 (by norm_num) hlarge
  have hidle : mustCompute (some ((3 : ℕ) * (1 / 2 : ℚ))) 7 ((7 : ℕ) * (1 / 2)) = true ↔ 3 ∣ 7 :=
    (mustCompute_multiple_iff hstep (by norm_num) (by norm_num)).2 (by norm_num) hlarge
  exact ⟨hdue.mpr (by norm_num), fun h => absurd (hidle.mp h) (by norm_num)⟩

/-- After a million iterations the tolerance reaches over a step, and a rate of two steps is met
at an odd iteration. -/
theorem mustCompute_off_period : ¬∀ (step : ℚ) (period k : ℕ), 0 < step → 1 ≤ period → 1 ≤ k →
    (mustCompute (some (period * step)) k (k * step) = true ↔ period ∣ k) := by
  intro h
  have hdue : mustCompute (some ((2 : ℕ) * (1 : ℚ))) 1000001 ((1000001 : ℕ) * 1) = true := by
    decide +kernel
  exact absurd ((h 1 2 1000001 one_pos (by norm_num) (by norm_num)).mp hdue) (by norm_num)

end CausalBlocks
