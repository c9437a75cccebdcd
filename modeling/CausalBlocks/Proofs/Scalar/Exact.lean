import CausalBlocks.Proofs.Scalar.Rational
import Mathlib.Algebra.Order.Archimedean.Real.Basic

/-!
# Exact arithmetic

A type of numbers is exact if each number stands for a real one and the operations do not round.
-/

namespace CausalBlocks

/-- Numbers that stand for real ones, with exact operations. -/
class Exact (α : Type) [Scalar α] where
  value : α → ℝ
  value_injective : Function.Injective value
  value_zero : value 0 = 0
  value_natCast (n : ℕ) : value (n : α) = n
  value_add (x y : α) : value (x + y) = value x + value y
  value_sub (x y : α) : value (x - y) = value x - value y
  value_mul (x y : α) : value (x * y) = value x * value y
  value_div (x y : α) : value y ≠ 0 → value (x / y) = value x / value y
  le_iff (x y : α) : x ≤ y ↔ value x ≤ value y
  lt_iff (x y : α) : x < y ↔ value x < value y
  beq_iff (x y : α) : (x == y) = true ↔ x = y
  value_floor (x : α) : value (Scalar.elementary .floor x) = ⌊value x⌋
  value_round (x : α) :
    value (Scalar.round x) = if value x < 0 then (-⌊1 / 2 - value x⌋ : ℤ) else ⌊value x + 1 / 2⌋
  toCount_eq (x : α) : Scalar.toCount x = ⌊value x⌋.toNat

namespace Exact

variable {α : Type} [Scalar α] [Exact α] {x y : α}

theorem value_greater (x y : α) :
    value (Scalar.greater x y) = max (value x) (value y) := by
  rw [Scalar.greater, Scalar.isNumber, if_pos ((beq_iff _ _).mpr rfl)]
  split
  next h =>
    rw [lt_iff] at h
    rw [max_eq_left h.le]
  next h =>
    rw [lt_iff, not_lt] at h
    rw [max_eq_right h]

theorem value_lesser (x y : α) :
    value (Scalar.lesser x y) = min (value x) (value y) := by
  rw [Scalar.lesser, Scalar.isNumber, if_pos ((beq_iff _ _).mpr rfl)]
  split
  next h =>
    rw [lt_iff] at h
    rw [min_eq_left h.le]
  next h =>
    rw [lt_iff, not_lt] at h
    rw [min_eq_right h]

theorem value_greater_zero (x : α) : value (Scalar.greater x 0) = max (value x) 0 := by
  rw [value_greater, value_zero]

theorem value_round_of_int {m : ℤ} (h : value x = m) : value (Scalar.round x) = m := by
  have hhalf : ⌊(1 / 2 : ℝ)⌋ = 0 := by norm_num
  rw [value_round, h]
  split
  · rw [sub_eq_neg_add, ← Int.cast_neg, Int.floor_intCast_add, hhalf, add_zero, neg_neg]
  · rw [Int.floor_intCast_add, hhalf, add_zero]

/-! ### Decimal places -/

section Grid

variable {places : ℕ}

/-- A number that needs no more than some decimal places. -/
def OnGrid (places : ℕ) (x : α) : Prop := ∃ m : ℤ, value x * 10 ^ places = m

theorem OnGrid.add (hx : OnGrid places x) (hy : OnGrid places y) : OnGrid places (x + y) := by
  obtain ⟨m, hm⟩ := hx
  obtain ⟨n, hn⟩ := hy
  refine ⟨m + n, ?_⟩
  rw [value_add, add_mul, hm, hn, Int.cast_add]

theorem OnGrid.sub (hx : OnGrid places x) (hy : OnGrid places y) : OnGrid places (x - y) := by
  obtain ⟨m, hm⟩ := hx
  obtain ⟨n, hn⟩ := hy
  refine ⟨m - n, ?_⟩
  rw [value_sub, sub_mul, hm, hn, Int.cast_sub]

theorem OnGrid.natCast_mul (hx : OnGrid places x) (n : ℕ) : OnGrid places ((n : α) * x) := by
  obtain ⟨m, hm⟩ := hx
  refine ⟨n * m, ?_⟩
  rw [value_mul, value_natCast, mul_assoc, hm, Int.cast_mul, Int.cast_natCast]

theorem value_roundTo (places : ℕ) (x : α) :
    value (Scalar.roundTo x places) =
      value (Scalar.round (x * (Nat.pow 10 places : α))) / 10 ^ places := by
  have hpow : value (Nat.pow 10 places : α) = 10 ^ places := by
    rw [value_natCast]
    exact Nat.cast_pow 10 places
  rw [Scalar.roundTo, value_div, hpow]
  rw [hpow]
  positivity

/-- Rounding leads to the grid. -/
theorem onGrid_roundTo (places : ℕ) (x : α) : OnGrid places (Scalar.roundTo x places) := by
  rw [OnGrid, value_roundTo, div_mul_cancel₀ _ (by positivity), value_round]
  split <;> exact ⟨_, rfl⟩

/-- What is on the grid stays where it is. -/
theorem OnGrid.roundTo_eq (h : OnGrid places x) : Scalar.roundTo x places = x := by
  obtain ⟨m, hm⟩ := h
  have hscaled : value (x * (Nat.pow 10 places : α)) = m := by
    rw [value_mul, value_natCast, ← hm]
    congr 1
    exact Nat.cast_pow 10 places
  apply value_injective
  rw [value_roundTo, value_round_of_int hscaled, ← hm, mul_div_cancel_right₀ _ (by positivity)]

end Grid

end Exact

/-- Exact numbers whose magnitudes and decimal literals are exact too. -/
class ExactMagnitude (α : Type) [Scalar α] extends Exact α where
  value_one : value 1 = 1
  value_abs (x : α) : value (Scalar.abs x) = |value x|
  value_scientific (m : ℕ) (s : Bool) (e : ℕ) :
    value (OfScientific.ofScientific m s e) = OfScientific.ofScientific m s e

/-! ### Rationals -/

theorem Rational.toNat_trunc (x : ℚ) : (Rational.trunc x).toNat = ⌊x⌋.toNat := by
  rw [trunc, Rat.floor_def']
  rcases le_or_gt 0 x.num with hnum | hnum
  · rw [Int.tdiv_eq_ediv_of_nonneg hnum]
  · have hden : (0 : ℤ) < x.den := by exact_mod_cast x.den_pos
    have htrunc : x.num.tdiv x.den ≤ 0 := by
      have hopposite := Int.tdiv_nonneg (neg_nonneg.mpr hnum.le) hden.le
      rw [Int.neg_tdiv] at hopposite
      omega
    have hfloor := Int.ediv_neg_of_neg_of_pos hnum hden
    omega

theorem Rational.value_floor (x : ℚ) :
    ((Scalar.elementary .floor x : ℚ) : ℝ) = ⌊(x : ℝ)⌋ := by
  rw [Rat.floor_cast]
  exact Rat.cast_intCast _

theorem Rational.value_round (x : ℚ) : ((Scalar.round x : ℚ) : ℝ) =
    if (x : ℝ) < 0 then (-⌊1 / 2 - (x : ℝ)⌋ : ℤ) else ⌊(x : ℝ) + 1 / 2⌋ := by
  have hcast : (1 / 2 : ℝ) = ((1 / 2 : ℚ) : ℝ) := by norm_num
  rw [hcast, ← Rat.cast_sub, ← Rat.cast_add, Rat.floor_cast, Rat.floor_cast]
  change ((if x < 0 then -(⌊1 / 2 - x⌋ : ℚ) else (⌊x + 1 / 2⌋ : ℚ) : ℚ) : ℝ) = _
  simp only [Rat.cast_lt_zero]
  split <;> push_cast <;> rfl

theorem Rational.value_abs (x : ℚ) : ((Scalar.abs x : ℚ) : ℝ) = |(x : ℝ)| := by
  rw [← Rat.cast_abs]
  change ((if x < 0 then -x else x : ℚ) : ℝ) = _
  split
  next h => rw [abs_of_neg h]
  next h => rw [abs_of_nonneg (not_lt.mp h)]

theorem Rational.toCount_eq (x : ℚ) : Scalar.toCount x = ⌊(x : ℝ)⌋.toNat := by
  rw [Rat.floor_cast]
  exact Rational.toNat_trunc x

/-- The rationals, each written with some digits after the point. -/
@[reducible] def Rational.writtenWith (digits : ℚ → ℕ) : Scalar ℚ :=
  { rationalScalar with fractionDigits := digits }

/-- The rationals are exact, however they are written. -/
@[reducible] noncomputable def Rational.exactWrittenWith (digits : ℚ → ℕ) :
    @Exact ℚ (writtenWith digits) :=
  let _ := writtenWith digits
  { value := (↑)
    value_injective := Rat.cast_injective
    value_zero := Rat.cast_zero
    value_natCast := Rat.cast_natCast
    value_add := Rat.cast_add
    value_sub := Rat.cast_sub
    value_mul := Rat.cast_mul
    value_div := fun x y _ => Rat.cast_div x y
    le_iff := fun _ _ => Rat.cast_le.symm
    lt_iff := fun _ _ => Rat.cast_lt.symm
    beq_iff := fun _ _ => beq_iff_eq
    value_floor := Rational.value_floor
    value_round := Rational.value_round
    toCount_eq := Rational.toCount_eq }

/-- The rationals are exact. -/
noncomputable instance exactRational : Exact ℚ := Rational.exactWrittenWith fun _ => 0

noncomputable instance exactMagnitudeRational : ExactMagnitude ℚ where
  toExact := exactRational
  value_one := Rat.cast_one
  value_abs := Rational.value_abs
  value_scientific := Rat.cast_ofScientific

end CausalBlocks
