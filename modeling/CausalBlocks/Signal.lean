import CausalBlocks.Scalar.Double

/-!
# Signals

A port carries one sample per iteration. Its history is the array of them, the
newest last.
-/

namespace CausalBlocks

/-- A value and the time at which it holds. -/
structure Sample (α : Type) where
  time : α
  value : α
  deriving DecidableEq, Repr

/-- The samples of a port, one per iteration. -/
abbrev History (α : Type) := Array (Sample α)

/-- The time and the value of a sample. -/
def Sample.text (s : Sample Float) : String :=
  "(" ++ doubleText s.time ++ ", " ++ doubleText s.value ++ ")"

namespace History

variable {α : Type}

/-- The newest sample. -/
def newest? (h : History α) : Option (Sample α) := h.back?

/-- The times of all samples. -/
def times (h : History α) : List α := h.toList.map Sample.time

/-- The values of all samples. -/
def values (h : History α) : List α := h.toList.map Sample.value

end History

end CausalBlocks
