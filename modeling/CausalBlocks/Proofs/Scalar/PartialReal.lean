import CausalBlocks.Scalar.Basic
import Mathlib.Algebra.Order.Round
import Mathlib.Analysis.SpecialFunctions.Log.Base
import Mathlib.Analysis.SpecialFunctions.Pow.Real
import Mathlib.Analysis.SpecialFunctions.Trigonometric.Arctan
import Mathlib.Analysis.SpecialFunctions.Trigonometric.Inverse

/-!
# Real arithmetic with undefined results

The real numbers with exact operations, and a number that is not defined for what has no real
result: a quotient by zero, a logarithm of zero. What is computed from it is not defined either, and
what comes of comparing it is left open. So a computation that shows real numbers only, however
those comparisons come out, has not divided by zero on the way to them.
-/

noncomputable section

namespace CausalBlocks

/-- What a computation sees of numbers that are not defined, when it compares or counts them. It can
be anything. -/
structure Whim where
  less : Option ℝ → Option ℝ → Prop
  atMost : Option ℝ → Option ℝ → Prop
  same : Option ℝ → Option ℝ → Bool
  bounded : Bool
  count : ℕ
  digits : ℕ

/-- The whim that undefined numbers are not related to anything. -/
def Whim.unrelated : Whim := ⟨fun _ _ => False, fun _ _ => False, fun _ _ => false, false, 0, 0⟩

/-- A real number, or one that is not defined. -/
structure PartialReal (w : Whim) where
  value? : Option ℝ

namespace PartialReal

variable {w : Whim}

/-- A number that is defined. -/
def real (x : ℝ) : PartialReal w := ⟨some x⟩

/-- The result of an operation, where its argument is defined. -/
def map (f : ℝ → Option ℝ) (x : PartialReal w) : PartialReal w := ⟨x.value?.bind f⟩

/-- The result of an operation, where both of its arguments are defined. -/
def map₂ (f : ℝ → ℝ → Option ℝ) (x y : PartialReal w) : PartialReal w :=
  ⟨x.value?.bind fun a => y.value?.bind (f a)⟩

/-- A comparison of two numbers, at a whim where one of them is not defined. -/
def Related (r : ℝ → ℝ → Prop) (whim : Option ℝ → Option ℝ → Prop) (x y : PartialReal w) : Prop :=
  match x.value?, y.value? with
  | some a, some b => r a b
  | a, b => whim a b

open Classical in
/-- Where a function is defined. -/
def within (domain : Prop) (x : ℝ) : Option ℝ := if domain then some x else none

/-- The nearest integer toward zero. -/
def truncated (x : ℝ) : ℤ := if x < 0 then ⌈x⌉ else ⌊x⌋

/-- The nearest integer, a half away from zero. -/
def rounded (x : ℝ) : ℤ := if x < 0 then -round (-x) else round x

/-- The logarithm of a positive number. -/
def logarithm (base : ℕ) (x : ℝ) : Option ℝ := within (0 < x) (Real.logb base x)

/-- The elementary functions, each on its domain. -/
def elementary : ElementaryFunction → ℝ → Option ℝ
  | .sin, x => some (Real.sin x)
  | .cos, x => some (Real.cos x)
  | .tan, x => within (Real.cos x ≠ 0) (Real.tan x)
  | .asin, x => within (|x| ≤ 1) (Real.arcsin x)
  | .acos, x => within (|x| ≤ 1) (Real.arccos x)
  | .atan, x => some (Real.arctan x)
  | .sinh, x => some (Real.sinh x)
  | .cosh, x => some (Real.cosh x)
  | .tanh, x => some (Real.tanh x)
  | .exp, x => some (Real.exp x)
  | .ln, x => within (0 < x) (Real.log x)
  | .log10, x => logarithm 10 x
  | .log2, x => logarithm 2 x
  | .sqrt, x => within (0 ≤ x) (Real.sqrt x)
  | .floor, x => some ⌊x⌋
  | .ceil, x => some ⌈x⌉

open Classical in
instance : Scalar (PartialReal w) where
  zero := real 0
  one := real 1
  natCast n := real n
  ofScientific m s e := real (OfScientific.ofScientific m s e)
  add := map₂ fun a b => some (a + b)
  sub := map₂ fun a b => some (a - b)
  mul := map₂ fun a b => some (a * b)
  div := map₂ fun a b => within (b ≠ 0) (a / b)
  neg := map fun a => some (-a)
  lt := Related (· < ·) w.less
  le := Related (· ≤ ·) w.atMost
  beq x y := match x.value?, y.value? with
    | some a, some b => a = b
    | a, b => w.same a b
  decideLT _ _ := propDecidable _
  decideLE _ _ := propDecidable _
  infinity := ⟨none⟩
  bounded x := x.value?.elim w.bounded fun _ => true
  abs := map fun a => some |a|
  trunc := map fun a => some (truncated a)
  round := map fun a => some (rounded a)
  toCount x := x.value?.elim w.count fun a => ⌊a⌋.toNat
  power := map₂ fun a b => within (0 < a) (a ^ b)
  remainder := map₂ fun a b => within (b ≠ 0) (a - b * truncated (a / b))
  elementary f := map (elementary f)
  fractionDigits _ := w.digits

theorem real_injective : Function.Injective (real (w := w)) := by
  intro x y h
  exact Option.some.inj (congrArg value? h)

@[simp] theorem real_inj {x y : ℝ} : (real x : PartialReal w) = real y ↔ x = y :=
  real_injective.eq_iff

/-! ### Numbers that are defined -/

@[simp] theorem real_zero : (0 : PartialReal w) = real 0 := rfl

@[simp] theorem real_one : (1 : PartialReal w) = real 1 := rfl

@[simp] theorem real_add (x y : ℝ) : (real x + real y : PartialReal w) = real (x + y) := rfl

@[simp] theorem real_sub (x y : ℝ) : (real x - real y : PartialReal w) = real (x - y) := rfl

@[simp] theorem real_mul (x y : ℝ) : (real x * real y : PartialReal w) = real (x * y) := rfl

@[simp] theorem real_neg (x : ℝ) : (-real x : PartialReal w) = real (-x) := rfl

@[simp] theorem real_abs (x : ℝ) : (Scalar.abs (real x) : PartialReal w) = real |x| := rfl

@[simp] theorem real_ceil (x : ℝ) :
    (Scalar.elementary .ceil (real x) : PartialReal w) = real ⌈x⌉ := rfl

@[simp] theorem toCount_real (x : ℝ) : Scalar.toCount (real x : PartialReal w) = ⌊x⌋.toNat := rfl

@[simp] theorem real_lt {x y : ℝ} : (real x : PartialReal w) < real y ↔ x < y := Iff.rfl

@[simp] theorem real_le {x y : ℝ} : (real x : PartialReal w) ≤ real y ↔ x ≤ y := Iff.rfl

@[simp] theorem real_beq {x y : ℝ} : ((real x : PartialReal w) == real y) = true ↔ x = y :=
  decide_eq_true_iff

theorem real_scientific (m : ℕ) (s : Bool) (e : ℕ) : (OfScientific.ofScientific m s e :
    PartialReal w) = real (OfScientific.ofScientific m s e) := rfl

theorem within_of {domain : Prop} (h : domain) (x : ℝ) : within domain x = some x := if_pos h

/-- A quotient by anything but zero. -/
theorem real_div {y : ℝ} (x : ℝ) (h : y ≠ 0) :
    (real x / real y : PartialReal w) = real (x / y) :=
  congrArg mk (within_of h (x / y))

/-- A power of a positive number. -/
theorem real_power {x : ℝ} (h : 0 < x) (y : ℝ) :
    (Scalar.power (real x) (real y) : PartialReal w) = real (x ^ y) :=
  congrArg mk (within_of h (x ^ y))

/-- The logarithm of a positive number. -/
theorem real_log2 {x : ℝ} (h : 0 < x) :
    (Scalar.elementary .log2 (real x) : PartialReal w) = real (Real.logb 2 x) :=
  (congrArg mk (within_of h (Real.logb (2 : ℕ) x))).trans (by rw [Nat.cast_ofNat]; rfl)

/-- The square root of a number that is not negative. -/
theorem real_sqrt {x : ℝ} (h : 0 ≤ x) :
    (Scalar.elementary .sqrt (real x) : PartialReal w) = real (Real.sqrt x) :=
  congrArg mk (within_of h (Real.sqrt x))

@[simp] theorem real_two : (2.0 : PartialReal w) = real 2 := by
  rw [real_scientific]
  norm_num

/-- Half of a number. -/
@[simp] theorem real_half (x : ℝ) : (real x / real 2 : PartialReal w) = real (x / 2) :=
  real_div x two_ne_zero

end PartialReal

end CausalBlocks

end
