import CausalBlocks.Decimal.Basic

/-!
# A given number of significant digits

`significant` rounds a positive quotient to a number of digits counted from its
first nonzero one; a half goes to the even neighbour.
-/

namespace CausalBlocks.Decimal

/-- The nearest integer to a quotient, a half to the even one. -/
def roundDiv (num den : Nat) : Nat :=
  let below := num / den
  match compare (2 * (num % den)) den with
  | .lt => below
  | .gt => below + 1
  | .eq => below + below % 2

/-- A positive quotient with `count` significant digits. -/
def significant (num den count : Nat) : Decimal :=
  let exponent := magnitude num den - count
  let (n, d) := scaled num den (-exponent)
  let digits := roundDiv n d
  if Nat.pow 10 count ≤ digits then ⟨digits / 10, exponent + 1⟩ else ⟨digits, exponent⟩

end CausalBlocks.Decimal
