import CausalBlocks.Event.Crossing

/-!
# Locating a crossing

Between two samples on different sides of zero, a locator looks for the time of
the crossing. What it does is a `Search`: a time that is found, or a time at
which it wants to know the value, and what it does then. A search can be run with
any way to answer, and spoken about without one.
-/

namespace CausalBlocks

/-- A search for a time by asking for values. -/
inductive Search (α : Type) where
  | found (time : α)
  | probe (time : α) (next : α → Search α)

namespace Search

variable {α : Type}

/-- The search with its questions answered. -/
def run {m : Type → Type} [Monad m] (answer : α → m α) : Search α → m α
  | found time => pure time
  | probe time next => do
    let value ← answer time
    (next value).run answer

end Search

/-- The parameters of the interpolate, truncate and project method. -/
structure ItpParameters (α : Type) where
  epsilon : α
  k1 : α
  k2 : α
  n0 : α

/-- The ways to locate a crossing. -/
inductive Locator (α : Type) where
  /-- The time of the first sample. -/
  | before
  /-- The time of the second sample. -/
  | after
  /-- Where a straight line between the samples crosses. -/
  | line
  /-- Halving a number of times. -/
  | bisection (iterations : Nat)
  /-- False position; an end that stays twice has its value halved. -/
  | falsePosition (tolerance : α) (iterations : Nat)
  | itp (parameters : ItpParameters α)

variable {α : Type} [Scalar α]

/-- The bracket of a search: two samples, measured from the level. -/
structure Bracket (α : Type) where
  left : Sample α
  right : Sample α

/-- Which end of the bracket moved last. -/
inductive Moved where
  | neither
  | left
  | right
  deriving DecidableEq

namespace Locator

/-- The bisection that is used when none is described. -/
def standardBisection : Locator α := .bisection 10

/-- The tolerance of false position that is used when none is given. -/
def standardTolerance : α := 1e-5

/-- How often false position looks, when nothing else is said. -/
def standardLimit : Nat := 5000000

/-- The false position that is used when none is described. -/
def standardFalsePosition : Locator α := .falsePosition standardTolerance standardLimit

/-- The parameters that are used when none are given. -/
def standardItp : ItpParameters α := ⟨1e-5, 0.1, 1.5, 0⟩

/-- Bisection with a number of halvings, of which there has to be one. -/
def makeBisection (iterations : Nat) : Except (Failure α) (Locator α) :=
  if iterations = 0 then .error (.invalidParameter "iterations" .noIteration)
  else .ok (.bisection iterations)

/-- The largest exponent of the truncation: one more than the golden ratio. -/
def largestExponent : α := 1 + (1 + Scalar.elementary .sqrt 5.0) / 2.0

/-- The method with parameters for which it is known to work. -/
def makeItp (p : ItpParameters α) : Except (Failure α) (Locator α) :=
  if ¬0 < p.epsilon then .error (.invalidParameter "epsilon" .notAboveZero)
  else if ¬0 < p.k1 then .error (.invalidParameter "k1" .notAboveZero)
  else if ¬(1 ≤ p.k2 ∧ p.k2 ≤ largestExponent) then
    .error (.invalidParameter "k2" .outsideGoldenRange)
  else if ¬0 ≤ p.n0 then .error (.invalidParameter "n0" .belowZero)
  else .ok (.itp p)

/-- The crossing of a straight line, or the first time if the line is level. -/
def searchLine (b : Bracket α) : Search α :=
  if b.left.value == b.right.value then .found b.left.time
  else
    .found ((b.right.time - b.left.time) / (b.right.value - b.left.value) * -b.left.value +
      b.left.time)

/-- The middle of a bracket in time. -/
def middle (b : Bracket α) : α := (b.right.time - b.left.time) / 2.0 + b.left.time

/-- Halving: the half with the crossing is kept, for a number of turns. `last` is
the time looked at last. -/
def searchBisection (direction : Direction) : Nat → Bracket α → α → Search α
  | 0, _, last => .found last
  | turns + 1, b, _ =>
    let time := middle b
    .probe time fun value =>
      if crosses direction b.left.value value 0 then
        searchBisection direction turns { b with right := ⟨time, value⟩ } time
      else if crosses direction value b.right.value 0 then
        searchBisection direction turns { b with left := ⟨time, value⟩ } time
      else .found time

/-- Where false position looks: where the line through the ends crosses, or in the
middle if the line is almost level. -/
def falsePoint (tolerance : α) (b : Bracket α) : α :=
  if Scalar.abs (b.left.value - b.right.value) < tolerance then middle b
  else
    (b.left.value * b.right.time - b.right.value * b.left.time) / (b.left.value - b.right.value)

/-- A sample with half its value. -/
def halved (s : Sample α) : Sample α := { s with value := s.value / 2.0 }

/-- False position for a number of turns, until the bracket is narrow or a value
is zero. -/
def searchFalsePosition (direction : Direction) (tolerance : α) :
    Nat → Bracket α → Moved → α → Search α
  | 0, _, _, last => .found last
  | turns + 1, b, moved, last =>
    if Scalar.abs (b.left.time - b.right.time) <
        tolerance * Scalar.abs (b.left.time + b.right.time) then .found last
    else
      let time := falsePoint tolerance b
      .probe time fun value =>
        if value == 0 then .found time
        else if crosses direction b.left.value value 0 then
          let left := if moved = .right then halved b.left else b.left
          searchFalsePosition direction tolerance turns ⟨left, ⟨time, value⟩⟩ .right time
        else if crosses direction value b.right.value 0 then
          let right := if moved = .left then halved b.right else b.right
          searchFalsePosition direction tolerance turns ⟨⟨time, value⟩, right⟩ .left time
        else .found time

/-- Where the interpolate, truncate and project method looks, given the reach that
the worst case leaves around the middle. -/
def itpPoint (p : ItpParameters α) (b : Bracket α) (reach : α) : α :=
  let (a, ya) := (b.left.time, b.left.value)
  let (c, yc) := (b.right.time, b.right.value)
  let half := (c - a) / 2.0 + a
  let radius := reach - (c - a) / 2.0
  let delta := p.k1 * Scalar.power (c - a) p.k2
  let interpolated :=
    if Scalar.abs (yc - ya) < p.epsilon then half else (yc * a - ya * c) / (yc - ya)
  let sigma : α := if interpolated < half then 1 else if half < interpolated then -1 else 0
  let truncated :=
    if delta ≤ Scalar.abs (half - interpolated) then interpolated + sigma * delta else half
  if Scalar.abs (truncated - half) ≤ radius then truncated else half - sigma * radius

/-- The method for a number of turns, until the bracket is narrow. `count` is the
number of turns taken. -/
def searchItp (direction : Direction) (p : ItpParameters α) (most : α) :
    Nat → Bracket α → α → Search α
  | 0, b, _ => .found ((b.left.time + b.right.time) / 2.0)
  | turns + 1, b, count =>
    if 2.0 * p.epsilon < b.right.time - b.left.time then
      let time := itpPoint p b (p.epsilon * Scalar.power 2.0 (most - count))
      .probe time fun value =>
        let slope := (b.left.value - b.right.value) * value
        if slope < 0 && crosses direction b.left.value value 0 then
          searchItp direction p most turns { b with right := ⟨time, value⟩ } (count + 1)
        else if 0 < slope && crosses direction value b.right.value 0 then
          searchItp direction p most turns { b with left := ⟨time, value⟩ } (count + 1)
        else
          searchItp direction p most turns
            ⟨⟨time, b.left.value⟩, ⟨time, b.right.value⟩⟩ (count + 1)
    else .found ((b.left.time + b.right.time) / 2.0)

/-- Turns beyond the bound for exact arithmetic, more than any search can take: a
bracket that rounding keeps too wide is searched until an answer fails. -/
def spareTurns : Nat := Nat.pow 2 62

/-- The method from the start. An end that is zero is the crossing. Halving would
take as many turns as the bracket has halvings down to its final width; the
method takes at most `n0` more. -/
def searchItpFrom (direction : Direction) (p : ItpParameters α) (b : Bracket α) : Search α :=
  if b.left.value == 0 then .found b.left.time
  else if b.right.value == 0 then .found b.right.time
  else
    let width := (b.right.time - b.left.time) / (2.0 * p.epsilon)
    let most := Scalar.elementary .ceil (Scalar.elementary .log2 width) + p.n0
    searchItp direction p most (Scalar.toCount most + spareTurns) b 0

/-- The search that a locator makes in a bracket. -/
def search (l : Locator α) (direction : Direction) (b : Bracket α) : Search α :=
  match l with
  | before => .found b.left.time
  | after => .found b.right.time
  | line => searchLine b
  | bisection iterations => searchBisection direction iterations b b.left.time
  | falsePosition tolerance iterations =>
    searchFalsePosition direction tolerance iterations b .neither b.left.time
  | itp p => searchItpFrom direction p b

end Locator

end CausalBlocks
