import CausalBlocks.Failure

/-!
# Linear systems

A system of as many linear equations as unknowns, solved by Gauss-Jordan
elimination. Every round takes the largest coefficient in the rows and columns
not used yet as its pivot, brings it to the diagonal, and clears the rest of its
column. A pivot of almost zero means that there is no unique solution.
-/

namespace CausalBlocks

variable {α : Type} [Scalar α] {n : Nat}

/-- Coefficients by row and column. -/
abbrev Grid (α : Type) (n : Nat) := Vector (Vector α n) n

/-- The equations `matrix · x = source`, and a place for their solution. -/
structure LinearSystem (α : Type) (n : Nat) where
  matrix : Grid α n
  source : Vector α n
  solution : Vector α n

namespace LinearSystem

/-- The system with all numbers zero. -/
def zero (α : Type) [Scalar α] (n : Nat) : LinearSystem α n :=
  ⟨.replicate n (.replicate n 0), .replicate n 0, .replicate n 0⟩

/-- The system with one coefficient changed. -/
def modifyCoefficient (s : LinearSystem α n) (row col : Fin n) (f : α → α) : LinearSystem α n :=
  { s with matrix := s.matrix.set row (s.matrix[row].set col (f s.matrix[row][col])) }

/-- The system with one coefficient given. -/
def setCoefficient (s : LinearSystem α n) (row col : Fin n) (value : α) : LinearSystem α n :=
  s.modifyCoefficient row col fun _ => value

/-- The system with a value added to one coefficient. -/
def addCoefficient (s : LinearSystem α n) (row col : Fin n) (value : α) : LinearSystem α n :=
  s.modifyCoefficient row col (· + value)

/-- The system with a value added to the right-hand side of one equation. -/
def addSource (s : LinearSystem α n) (row : Fin n) (value : α) : LinearSystem α n :=
  { s with source := s.source.set row (s.source[row] + value) }

end LinearSystem

/-- Pivots below this magnitude count as zero. -/
def pivotTolerance : α := 1e-15

/-- A system on its way to the solution, with the columns already cleared. -/
structure Elimination (α : Type) (n : Nat) where
  matrix : Grid α n
  source : Vector α n
  cleared : List (Fin n)

namespace Elimination

/-- The rows and columns that have not been used. -/
def free (s : Elimination α n) : List (Fin n) :=
  (List.finRange n).filter fun i => i ∉ s.cleared

/-- The place of the largest free coefficient, the last one of several; `first`
twice if no coefficient can be compared. -/
def pivot (s : Elimination α n) (first : Fin n) : Fin n × Fin n :=
  let places := s.free.flatMap fun row => s.free.map fun col => (row, col)
  let larger (best : α × Fin n × Fin n) (place : Fin n × Fin n) : α × Fin n × Fin n :=
    let size := Scalar.abs s.matrix[place.1][place.2]
    if best.1 ≤ size then (size, place) else best
  (places.foldl larger (0, first, first)).2

/-- The system with two equations exchanged. -/
def swap (s : Elimination α n) (row col : Fin n) : Elimination α n :=
  { s with matrix := s.matrix.swap row col, source := s.source.swap row col }

/-- The system with one column cleared by the equation on its diagonal place,
which is divided by the coefficient there. -/
def clear (s : Elimination α n) (col : Fin n) : Elimination α n :=
  let inverse := 1 / s.matrix[col][col]
  let pivotRow := (s.matrix[col].set col 1).map (· * inverse)
  let pivotSource := s.source[col] * inverse
  let clearRow (row : Fin n) : Vector α n :=
    let factor := s.matrix[row][col]
    (Vector.zipWith fun x p => x - p * factor) (s.matrix[row].set col 0) pivotRow
  { matrix := .ofFn fun row => if row = col then pivotRow else clearRow row
    source := .ofFn fun row =>
      if row = col then pivotSource else s.source[row] - pivotSource * s.matrix[row][col]
    cleared := col :: s.cleared }

/-- One round of elimination. -/
def round (s : Elimination α n) (first : Fin n) : Except Singularity (Elimination α n) :=
  let (row, col) := s.pivot first
  if col ∈ s.cleared then .error .reusedPivot
  else
    let s := s.swap row col
    if Scalar.abs s.matrix[col][col] < pivotTolerance then .error .zeroPivot
    else .ok (s.clear col)

end Elimination

namespace LinearSystem

/-- The solution found by one round for every unknown. -/
def eliminate (matrix : Grid α n) (source : Vector α n) : Except Singularity (Vector α n) := do
  let start : Elimination α n := ⟨matrix, source, []⟩
  let last ← (List.finRange n).foldlM (fun s i => s.round ⟨0, i.pos⟩) start
  return last.source

/-- Solves the system and keeps the solution. -/
def solve : EStateM Singularity (LinearSystem α n) Unit := do
  let s ← get
  match eliminate s.matrix s.source with
  | .ok solution => set { s with solution }
  | .error reason => throw reason

end LinearSystem

end CausalBlocks
