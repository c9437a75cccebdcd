/-!
# The numbers that flow through a diagram

Everything a diagram computes is written over a type of numbers with the
operations of `Scalar`. Running a simulation uses double precision
(`CausalBlocks.Scalar.Double`); a statement about exact arithmetic uses an
ordered field. Nothing here assumes a law: a double satisfies few of them.
-/

namespace CausalBlocks

/-- The functions of one variable that a function block can apply. -/
inductive ElementaryFunction where
  | sin | cos | tan
  | asin | acos | atan
  | sinh | cosh | tanh
  | exp | ln | log10 | log2
  | sqrt | floor | ceil
  deriving DecidableEq, Repr

/-- A type of numbers with the arithmetic, order, rounding and functions that
blocks, solvers and the clock need. The order relations decide as the type
compares: a double that is not a number is related to nothing. -/
class Scalar (α : Type) extends
    Zero α, One α, NatCast α, OfScientific α,
    Add α, Sub α, Mul α, Div α, Neg α, LT α, LE α, BEq α where
  /-- Strict comparison decides. -/
  decideLT : DecidableLT α
  /-- Weak comparison decides. -/
  decideLE : DecidableLE α
  /-- A value above every bounded one, where the type has such a value. -/
  infinity : α
  /-- Whether a value lies strictly below infinity. -/
  bounded : α → Bool
  /-- The magnitude of a value. -/
  abs : α → α
  /-- The nearest integer toward zero. -/
  trunc : α → α
  /-- The nearest integer, a half away from zero. -/
  round : α → α
  /-- The integer part as a count: negative values give 0. -/
  toCount : α → Nat
  /-- The first argument raised to the second. -/
  power : α → α → α
  /-- What is left of the first argument after whole multiples of the second,
  with the sign of the first. -/
  remainder : α → α → α
  /-- The elementary functions. -/
  elementary : ElementaryFunction → α → α
  /-- How many digits stand after the point when the value is written in
  full. -/
  fractionDigits : α → Nat

namespace Scalar

variable {α : Type} [Scalar α]

instance : DecidableLT α := decideLT

instance : DecidableLE α := decideLE

/-- Whether a value equals itself: only something that is not a number does
not. -/
def isNumber (x : α) : Bool := x == x

/-- The smaller of two values, and the second of two equal ones: the two zeros
are equal. A value that is not a number gives way to the other. -/
def lesser (x y : α) : α :=
  if x < y then x else if isNumber y then y else x

/-- The larger of two values, and the second of two equal ones. A value that is
not a number gives way to the other. -/
def greater (x y : α) : α :=
  if y < x then x else if isNumber y then y else x

/-- The smallest number of a list, infinity when it holds none. -/
def least (xs : List α) : α :=
  match xs.filter isNumber with
  | [] => infinity
  | x :: rest => rest.foldl lesser x

/-- The largest number of a list, negative infinity when it holds none. -/
def greatest (xs : List α) : α :=
  match xs.filter isNumber with
  | [] => -infinity
  | x :: rest => rest.foldl greater x

/-- The sum from left to right, from negative zero: the one value that
addition always keeps. -/
def sum (xs : List α) : α := xs.foldl (· + ·) (-0)

/-- The product from left to right. -/
def product (xs : List α) : α := xs.foldl (· * ·) 1

/-- A value limited from below, then from above. -/
def clamp (x low high : α) : α := lesser (greater x low) high

/-- A value rounded to a number of decimal places. -/
def roundTo (x : α) (places : Nat) : α :=
  let scale : α := (Nat.pow 10 places : α)
  round (x * scale) / scale

/-- The number that stands for a truth value. -/
def ofBool (b : Bool) : α := if b then 1 else 0

/-- Every value but zero stands for true. -/
def isTrue (x : α) : Bool := !(x == 0)

end Scalar

end CausalBlocks
