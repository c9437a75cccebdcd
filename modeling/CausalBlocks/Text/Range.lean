/-!
# Sets of characters given by ranges

The character properties of the Unicode standard are tables of ranges of code
points. `Ranges` is such a table in increasing order, and `Ranges.contains`
searches it.
-/

namespace CausalBlocks

/-- Ranges of code points with both ends, in increasing order. -/
abbrev Ranges := List (Nat × Nat)

/-- Whether a code point lies in one of the ranges. -/
def Ranges.contains : Ranges → Nat → Bool
  | [], _ => false
  | (low, high) :: rest, code => code ≥ low && (code ≤ high || Ranges.contains rest code)

end CausalBlocks
