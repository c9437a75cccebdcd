import CausalBlocks.Decimal.Basic

/-!
# Reading numbers

A number is written with an optional sign, digits with at most one point among or
around them, and an optional power of ten; or as one of the words for infinity and
for what is not a number, in any case.
-/

namespace CausalBlocks

namespace Decimal

/-- The value of a run of digits. -/
def valueOf (digits : List Char) : Nat :=
  digits.foldl (fun n c => 10 * n + (c.toNat - '0'.toNat)) 0

/-- A sign, if there is one, and what follows it. -/
def readSign : List Char → Bool × List Char
  | '-' :: rest => (true, rest)
  | '+' :: rest => (false, rest)
  | cs => (false, cs)

/-- The power of ten at the end of a number: nothing, or the mark and a whole
number. -/
def readPower? : List Char → Option Int
  | [] => some 0
  | c :: rest =>
    if c = 'e' ∨ c = 'E' then
      let (negative, digits) := readSign rest
      if digits = [] ∨ !digits.all Char.isDigit then none
      else some (if negative then -(valueOf digits : Int) else valueOf digits)
    else none

/-- A number without a sign. -/
def readUnsigned? (cs : List Char) : Option Decimal :=
  let whole := cs.takeWhile Char.isDigit
  let (fraction, rest) :=
    match cs.dropWhile Char.isDigit with
    | '.' :: rest => (rest.takeWhile Char.isDigit, rest.dropWhile Char.isDigit)
    | rest => ([], rest)
  if whole = [] ∧ fraction = [] then none
  else (readPower? rest).map fun power => ⟨valueOf (whole ++ fraction), power - fraction.length⟩

/-- The nearest double; a number far beyond the doubles is infinite, one far below
them is zero. -/
def toFloat (d : Decimal) : Float :=
  let top := (width d.digits : Int) + d.exponent
  if d.digits = 0 ∨ top < -400 then 0.0
  else if 400 < top then 1.0 / 0.0
  else
    match d.exponent with
    | .ofNat k => Float.ofScientific d.digits false k
    | .negSucc k => Float.ofScientific d.digits true (k + 1)

end Decimal

/-- The double that a text stands for. -/
def readDouble? (text : String) : Option Float :=
  let (negative, cs) := Decimal.readSign text.toList
  let magnitude :=
    match String.ofList (cs.map Char.toLower) with
    | "inf" | "infinity" => some (1.0 / 0.0)
    | "nan" => some (0.0 / 0.0)
    | _ => (Decimal.readUnsigned? cs).map Decimal.toFloat
  magnitude.map fun x => if negative then -x else x

end CausalBlocks
