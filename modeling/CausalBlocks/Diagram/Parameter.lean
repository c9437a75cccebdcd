import CausalBlocks.Diagram.Edit

/-!
# Parameters, the clock and validity

Constants, rates and the start of the clock can be changed between and during
runs. A model has one clock; it is valid if every input is driven and no
forwarding goes in circles.
-/

namespace CausalBlocks

variable {α : Type}

namespace Diagram

/-- The one block of the model that is a clock. -/
def clock (d : Diagram α) : Except (Failure α) BlockId :=
  let isClock (id : BlockId) : Bool :=
    match d.block? id with
    | some b => b.operator.isClock
    | none => false
  match d.primitives.filter isClock with
  | [] => .error (.missingClock d.name)
  | [id] => .ok id
  | ids => .error (.multipleClocks d.name ids.length)

/-- Whether a block's inputs may stay open: a clock without a link keeps the step
it announced. -/
def allowsOpenInputs (b : Block α) : Bool :=
  b.operator.isClock && b.inputs.all fun p => p.incoming.isNone

/-- Refuses a model that cannot be run. -/
def validate (d : Diagram α) : Except (Failure α) Unit := do
  let _ ← d.clock
  d.primitives.forM fun id => do
    let b ← d.block id
    unless allowsOpenInputs b do
      (List.range b.inputs.length).forM fun index => discard <| d.driverOf (.input id index)
  (d.portIds d.root .output).forM fun port => discard <| d.prevClosure port

end Diagram

namespace Edit

/-- Gives a constant block another value. -/
def setConstant (path : String) (value : α) : Edit α Unit := do
  let d ← diagram
  let id ← d.find path
  let b ← d.block id
  match b.operator with
  | .constant _ => modifyBlock id fun b => { b with operator := .constant value }
  | other => throw (.invalidParameter path (.notConstant other.typeName))

/-- Makes a block compute only at multiples of a period, or always. -/
def setRate [Scalar α] (id : BlockId) (rate : Option α) : Edit α Unit := do
  if let some period := rate then
    unless 0 < period ∧ Scalar.bounded period do
      throw (.invalidParameter ((← diagram).pathOf id) (.rateNotPositive period))
  modifyBlock id fun b => { b with rate }

/-- Makes the clock start at a time. -/
def setClockStart (start : α) : Edit α Unit := do
  let id ← (← diagram).clock
  modifyBlock id fun b =>
    match b.operator with
    | .clock _ step => { b with operator := .clock start step }
    | _ => b

end Edit

end CausalBlocks
