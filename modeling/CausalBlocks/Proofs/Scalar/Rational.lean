import CausalBlocks.Scalar.Basic
import Mathlib.Data.Rat.Floor

/-!
# Rational numbers

Simulations whose numbers are exact. The rationals have no infinity, a large number
stands for it, and the elementary functions that lead out of them give zero.
-/

namespace CausalBlocks

/-- What stands for infinity. -/
def Rational.infinity : ℚ := 10 ^ 100

/-- The nearest integer toward zero. -/
def Rational.trunc (x : ℚ) : ℤ := x.num.tdiv x.den

instance rationalScalar : Scalar ℚ where
  decideLT := inferInstance
  decideLE := inferInstance
  infinity := Rational.infinity
  bounded x := x < Rational.infinity
  abs x := if x < 0 then -x else x
  trunc x := Rational.trunc x
  round x := if x < 0 then -⌊1 / 2 - x⌋ else ⌊x + 1 / 2⌋
  toCount x := (Rational.trunc x).toNat
  power x y := x ^ Rational.trunc y
  remainder x y := x - y * Rational.trunc (x / y)
  elementary f x := match f with
    | .floor => ⌊x⌋
    | .ceil => -⌊-x⌋
    | _ => 0
  fractionDigits _ := 0

end CausalBlocks
