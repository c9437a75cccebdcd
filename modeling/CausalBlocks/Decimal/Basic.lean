/-!
# Decimal numbers and how they are written

A `Decimal` is a whole number of units of a power of ten. It is written in full
with `positional`, or with one digit before the point with `scientific`.
-/

namespace CausalBlocks

/-- The number `digits · 10 ^ exponent`. -/
structure Decimal where
  digits : Nat
  exponent : Int
  deriving DecidableEq, Repr

namespace Decimal

/-- How many decimal digits a natural number has; zero has one. -/
def width (n : Nat) : Nat := (Nat.toDigits 10 n).length

/-- The digits without trailing zeros, and how many there were. -/
def stripZeros (n : Nat) : Nat × Nat :=
  if _ : n = 0 ∨ n % 10 ≠ 0 then (n, 0)
  else
    let (m, k) := stripZeros (n / 10)
    (m, k + 1)
termination_by n
decreasing_by omega

/-- The same number with as few digits as possible. -/
def normalize (d : Decimal) : Decimal :=
  let (m, k) := stripZeros d.digits
  ⟨m, d.exponent + k⟩

/-- How many digits stand after the point. -/
def places (d : Decimal) : Nat := (-d.exponent).toNat

/-- All digits in their positions, with a zero before a leading point and no
exponent. -/
def positional (d : Decimal) : String :=
  let digits := Nat.toDigits 10 d.digits
  match d.exponent with
  | .ofNat zeros => String.ofList (digits ++ List.replicate zeros '0')
  | .negSucc n =>
    let places := n + 1
    let padded := List.replicate (places + 1 - digits.length) '0' ++ digits
    let whole := padded.take (padded.length - places)
    let fraction := padded.drop (padded.length - places)
    String.ofList (whole ++ '.' :: fraction)

/-- One digit, a point if more digits follow, those digits, and the power of
ten of the first digit. -/
def scientific (d : Decimal) : String :=
  let digits := Nat.toDigits 10 d.digits
  let power := d.exponent + (digits.length - 1 : Nat)
  let mantissa :=
    match digits with
    | first :: second :: rest => first :: '.' :: second :: rest
    | short => short
  String.ofList mantissa ++ "e" ++ toString power

/-- The exponent `k` for which a positive quotient lies in
`[10 ^ (k - 1), 10 ^ k)`. -/
def magnitude (num den : Nat) : Int :=
  if den ≤ num then width (num / den) else 1 - (width ((den - 1) / num) : Int)

/-- The quotient multiplied by a power of ten, again as a quotient. -/
def scaled (num den : Nat) (shift : Int) : Nat × Nat :=
  match shift with
  | .ofNat k => (num * Nat.pow 10 k, den)
  | .negSucc k => (num, den * Nat.pow 10 (k + 1))

end Decimal

end CausalBlocks
