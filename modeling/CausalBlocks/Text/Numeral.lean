/-!
# Numbers in base 64

`numeral64` writes a number with the 64 digits of `alphabet`, most significant
digit first. Generated names end in such numerals, because they are short and
differ for different numbers.
-/

namespace CausalBlocks

/-- The digits, in increasing order of value. -/
def alphabet : List Char :=
  "abcdefghijklmnopqrstuvwxyzABCDEFGHIJKLMNOPQRSTUVWXYZ0123456789$_".toList

/-- The digit with a value below 64. -/
def digit64 (value : Nat) : Char := alphabet.getD value 'a'

/-- The digits of a number, least significant first. Zero has one digit. -/
def digits64 (n : Nat) : List Char :=
  if n < 64 then [digit64 n] else digit64 (n % 64) :: digits64 (n / 64)
termination_by n
decreasing_by omega

/-- A number in base 64. -/
def numeral64 (n : Nat) : String := String.ofList (digits64 n).reverse

end CausalBlocks
