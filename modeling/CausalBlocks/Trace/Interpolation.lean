import CausalBlocks.Scalar.Basic

/-!
# Rows at regular times

Samples come at the times of the iterations. An `Interpolator` turns them into
rows at a start time and every interval after it, each between the two samples
around its time.
-/

namespace CausalBlocks

variable {α : Type} [Scalar α]

/-- How a value between two samples is found. -/
inductive Interpolation where
  /-- On the straight line between them. -/
  | linear
  /-- The older one, until the newer is reached. -/
  | hold
  deriving DecidableEq, Repr

/-- The value at `x` between `(x0, y0)` and `(x1, y1)`; beyond the ends, the value
of the end. -/
def Interpolation.apply (method : Interpolation) (x0 y0 x1 y1 x : α) : α :=
  if x ≤ x0 then y0
  else if x1 ≤ x then y1
  else
    match method with
    | .linear => (y1 - y0) / (x1 - x0) * (x - x0) + y0
    | .hold => y0

/-- The values of all signals at a time. -/
structure Row (α : Type) where
  time : α
  values : List α

/-- The state between samples: the time of the last row, the decimal places to
which it is kept, and the last sample. -/
structure Interpolator (α : Type) where
  interval : α
  method : Interpolation
  lastTime : α
  places : Nat
  previous : Option (Row α)

namespace Interpolator

/-- The decimal places for an interval: as many as it has, in groups of three and
at most fifteen. -/
def placesFor (interval : α) : Nat := min ((Scalar.fractionDigits interval + 2) / 3 * 3) 15

/-- The interpolator before the first sample; the first row is due at the start. -/
def start (interval : α) (method : Interpolation) (startTime : α) : Interpolator α :=
  ⟨interval, method, startTime - interval, placesFor interval, none⟩

/-- The time of the next row. -/
def nextTime (i : Interpolator α) : α := i.lastTime + i.interval

/-- The interpolator after a row. -/
def advance (i : Interpolator α) : Interpolator α :=
  { i with lastTime := Scalar.roundTo i.nextTime i.places }

/-- A row between two samples. -/
def rowAt (i : Interpolator α) (older newer : Row α) (time : α) : Row α :=
  let value (y0 y1 : α) : α := i.method.apply older.time y0 newer.time y1 time
  ⟨time, List.zipWith value older.values newer.values⟩

/-- The rows of a number of intervals, as far as the newer sample reaches, the
latest first after those of `rows`. -/
def collect (older newer : Row α) : Nat → Interpolator α → List (Row α) →
    List (Row α) × Interpolator α
  | 0, i, rows => (rows.reverse, i)
  | count + 1, i, rows =>
    let rows :=
      if i.nextTime ≤ newer.time then i.rowAt older newer i.nextTime :: rows else rows
    collect older newer count i.advance rows

/-- The rows that a sample makes available, and the interpolator after it. -/
def feed (i : Interpolator α) (sample : Row α) : List (Row α) × Interpolator α :=
  let older := i.previous.getD sample
  let passed := Scalar.elementary .floor ((sample.time - i.lastTime) / i.interval)
  let (rows, i) := collect older sample (Scalar.toCount (Scalar.greater passed 0)) i []
  (rows, { i with previous := some sample })

end Interpolator

end CausalBlocks
