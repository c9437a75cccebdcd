import CausalBlocks.Diagram.Closure

/-!
# Level crossings

A signal crosses a level between two samples if it goes from one side to the
other; touching the level counts.
-/

namespace CausalBlocks

variable {α : Type} [Scalar α]

/-- The direction in which a signal has to cross. -/
inductive Direction where
  | fromBelow
  | fromAbove
  | any
  deriving DecidableEq, Repr

/-- Whether a value rises to zero or through it. -/
def rises (before after : α) : Bool := before ≤ 0 && 0 ≤ after

/-- Whether a value falls to zero or through it. -/
def falls (before after : α) : Bool := 0 ≤ before && after ≤ 0

/-- Whether two values lie on different sides of zero, or on it, in a direction. -/
def Direction.holds (direction : Direction) (before after : α) : Bool :=
  match direction with
  | .fromBelow => rises before after
  | .fromAbove => falls before after
  | .any => rises before after || falls before after

/-- Whether a signal crosses a level between two values. -/
def crosses (direction : Direction) (before after level : α) : Bool :=
  direction.holds (before - level) (after - level)

/-- A level of a signal to be watched. -/
structure Watch (α : Type) where
  signal : String
  level : α
  direction : Direction

namespace Watch

/-- The last two samples of a history, if there are two. -/
def lastTwo? (h : History α) : Option (Sample α × Sample α) := do
  let before ← h[h.size - 2]?
  let after ← h.back?
  if h.size < 2 then none else some (before, after)

/-- Whether the last two samples of the signal cross the level. -/
def crossed (w : Watch α) (d : Diagram α) : Except (Failure α) Bool := do
  match lastTwo? (← d.signalHistory w.signal) with
  | some (before, after) => return crosses w.direction before.value after.value w.level
  | none => return false

/-- Whether the newest sample of the signal is on the level. -/
def onLevel (w : Watch α) (d : Diagram α) : Except (Failure α) Bool := do
  match (← d.signalHistory w.signal).newest? with
  | some sample => return sample.value == w.level
  | none => return false

/-- Whether a level that has been crossed can be watched again: a whole step has
passed since, and the signal has left the level. -/
def canRearm (w : Watch α) (d : Diagram α) : Except (Failure α) Bool := do
  if (← d.signalHistory w.signal).size < 2 then return false
  return !(← w.onLevel d)

end Watch

end CausalBlocks
