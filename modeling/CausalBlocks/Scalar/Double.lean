import CausalBlocks.Scalar.Basic
import CausalBlocks.Decimal.Shortest
import CausalBlocks.Decimal.Significant

/-!
# Double precision

A double is taken apart into a sign and a whole number of units of a power of
two. On that exact view rest the two ways a double is written (`text`, the
shortest digits that read back, and `significant`) and the exact remainder of a
division. The instance at the end makes doubles the numbers of a simulation.
-/

namespace CausalBlocks

/-- What the bits of a double say. The value of a finite one is
`± significand · 2 ^ exponent`. -/
inductive Double where
  | notANumber
  | infinite (negative : Bool)
  | finite (negative : Bool) (significand : Nat) (exponent : Int)
  deriving DecidableEq, Repr

namespace Double

/-- The view of a double's bits. -/
def ofFloat (x : Float) : Double :=
  let bits := x.toBits.toNat
  let negative := bits ≥ Nat.pow 2 63
  let biased : Nat := bits / Nat.pow 2 52 % Nat.pow 2 11
  let fraction : Nat := bits % Nat.pow 2 52
  if biased = 2047 then
    if fraction = 0 then .infinite negative else .notANumber
  else if biased = 0 then .finite negative fraction (-1074)
  else .finite negative (Nat.pow 2 52 + fraction) ((biased : Int) - 1075)

/-- A power of two as a quotient. -/
def powerOfTwo : Int → Nat × Nat
  | .ofNat k => (Nat.pow 2 k, 1)
  | .negSucc k => (1, Nat.pow 2 (k + 1))

/-- The real numbers that round to a positive double: half a unit to either
side, but only a quarter below a power of two, where the units below are half as
large. The ends round to the even significand. -/
def neighbourhood (significand : Nat) (exponent : Int) : Neighbourhood :=
  let (num, den) := powerOfTwo exponent
  let below := if significand = Nat.pow 2 52 ∧ exponent ≠ -1074 then 1 else 2
  { low := (4 * significand - below) * num
    middle := 4 * significand * num
    high := (4 * significand + 2) * num
    unit := 4 * den
    closed := significand % 2 = 0 }

/-- The shortest decimal that reads back as the magnitude of a double. -/
def shortest (significand : Nat) (exponent : Int) : Decimal :=
  if significand = 0 then ⟨0, 0⟩ else (neighbourhood significand exponent).shortest

/-- The texts of the values that are not finite. -/
def special : Bool → String
  | true => "-inf"
  | false => "inf"

/-- A sign, written only for negative values; zero has one too. -/
def signed (negative : Bool) (text : String) : String :=
  if negative then "-" ++ text else text

/-- The shortest digits that read back, in their positions. -/
def text : Double → String
  | .notANumber => "NaN"
  | .infinite negative => special negative
  | .finite negative significand exponent =>
    signed negative (shortest significand exponent).positional

/-- The exact value rounded to `count` significant digits. -/
def significantText (count : Nat) : Double → String
  | .notANumber => "NaN"
  | .infinite negative => special negative
  | .finite negative significand exponent =>
    if significand = 0 then
      let zeros := if count ≤ 1 then "" else "." ++ String.ofList (List.replicate (count - 1) '0')
      signed negative ("0" ++ zeros ++ "e0")
    else
      let (num, den) := powerOfTwo exponent
      signed negative (Decimal.significant (significand * num) den count).scientific

/-- How many digits `text` writes after the point. -/
def fractionDigits : Double → Nat
  | .finite _ significand exponent => (shortest significand exponent).places
  | _ => 0

/-- The double with a magnitude that one of them has exactly. -/
def compose (negative : Bool) (significand : Nat) (exponent : Int) : Float :=
  let shift := significand.log2 - 52
  let magnitude := Float.scaleB (Float.ofNat (significand >>> shift)) (exponent + shift)
  if negative then -magnitude else magnitude

/-- The exact remainder of a division, with the sign of the dividend. -/
def remainder (x y : Float) : Float :=
  match ofFloat x, ofFloat y with
  | .finite negative m q, .finite _ n r =>
    if n = 0 then 0.0 / 0.0
    else if m = 0 then x
    else
      let unit := min q r
      let left := (m <<< (q - unit).toNat) % (n <<< (r - unit).toNat)
      compose negative left unit
  | .finite .., .infinite _ => x
  | _, _ => 0.0 / 0.0

/-- The nearest integer toward zero. -/
def trunc (x : Float) : Float := if x < 0 then x.ceil else x.floor

/-- The elementary functions on doubles. -/
def elementary : ElementaryFunction → Float → Float
  | .sin => Float.sin
  | .cos => Float.cos
  | .tan => Float.tan
  | .asin => Float.asin
  | .acos => Float.acos
  | .atan => Float.atan
  | .sinh => Float.sinh
  | .cosh => Float.cosh
  | .tanh => Float.tanh
  | .exp => Float.exp
  | .ln => Float.log
  | .log10 => Float.log10
  | .log2 => Float.log2
  | .sqrt => Float.sqrt
  | .floor => Float.floor
  | .ceil => Float.ceil

end Double

instance doubleScalar : Scalar Float where
  zero := 0.0
  one := 1.0
  natCast := Float.ofNat
  decideLT := inferInstance
  decideLE := inferInstance
  infinity := 1.0 / 0.0
  bounded x := x < 1.0 / 0.0
  abs := Float.abs
  trunc := Double.trunc
  round := Float.round
  toCount x := x.toUInt64.toNat
  power := Float.pow
  remainder := Double.remainder
  elementary := Double.elementary
  fractionDigits x := (Double.ofFloat x).fractionDigits

/-- The shortest digits that read back as the double, without an exponent. -/
def doubleText (x : Float) : String := (Double.ofFloat x).text

end CausalBlocks
