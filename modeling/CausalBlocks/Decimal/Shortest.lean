import CausalBlocks.Decimal.Basic

/-!
# The shortest decimal inside an interval

A binary number stands for every real number that rounds to it. Of the decimals
in that interval `shortest` takes one with the fewest digits, and of those the
nearest to the number itself; of two equally near ones it takes the larger.
-/

namespace CausalBlocks

/-- A positive quotient `middle / unit` together with the numbers that count as
the same: those between `low / unit` and `high / unit`, with the ends if
`closed`. -/
structure Neighbourhood where
  low : Nat
  middle : Nat
  high : Nat
  unit : Nat
  closed : Bool

namespace Neighbourhood

/-- Whether the decimal `digits · 10 ^ exponent` lies in the interval. -/
def contains (n : Neighbourhood) (digits : Nat) (exponent : Int) : Bool :=
  let (num, den) := Decimal.scaled digits 1 exponent
  if n.closed then n.low * den ≤ num * n.unit && num * n.unit ≤ n.high * den
  else n.low * den < num * n.unit && num * n.unit < n.high * den

/-- The better of the two neighbours of the middle on the grid of decimals with
the given exponent, if one of them lies in the interval. -/
def onGrid? (n : Neighbourhood) (exponent : Int) : Option Decimal :=
  let (num, den) := Decimal.scaled n.middle n.unit (-exponent)
  let below := num / den
  match n.contains below exponent, n.contains (below + 1) exponent with
  | true, true => some ⟨if 2 * (num % den) < den then below else below + 1, exponent⟩
  | true, false => some ⟨below, exponent⟩
  | false, true => some ⟨below + 1, exponent⟩
  | false, false => none

/-- The first grid with a hit, from coarse to fine. -/
def firstGrid (n : Neighbourhood) (magnitude : Int) : List Nat → Option Decimal
  | [] => none
  | count :: rest => (n.onGrid? (magnitude - count)).or (firstGrid n magnitude rest)

/-- The shortest decimal in the interval. Seventeen digits tell any two doubles
apart, so no finer grid is needed. -/
def shortest (n : Neighbourhood) : Decimal :=
  let magnitude := Decimal.magnitude n.middle n.unit
  match n.firstGrid magnitude (List.range' 1 17) with
  | some d => d.normalize
  | none => ⟨n.middle / n.unit, 0⟩

end Neighbourhood

end CausalBlocks
