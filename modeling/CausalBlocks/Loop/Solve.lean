import CausalBlocks.Diagram.Closure
import CausalBlocks.Loop.System

/-!
# Algebraic loops

Blocks that need each other within one iteration are solved together. Each
output is an unknown, and the equation of a block has its own output with the
coefficient -1, the outputs of other members with what the operator makes of
them, and the known inputs on the right-hand side. Sums, negations, products with
one unknown factor, and the initial conditions of delays give linear equations.
-/

namespace CausalBlocks

variable {α : Type} [Scalar α]

/-- An input as a loop sees it: the output of a member, or a known value. -/
inductive Operand (α : Type) (n : Nat) where
  | unknown (member : Fin n)
  | known (value : α)

/-- The last place of a block in a group. -/
def memberIndex? (group : List BlockId) (id : BlockId) : Option (Fin group.length) :=
  (List.finRange group.length).reverse.find? fun i => group[i] = id

/-- The member of a group whose output is a port. -/
def memberAt? (group : List BlockId) (port : PortId) : Option (Fin group.length) :=
  match port.side with
  | .output => memberIndex? group port.block
  | .input => none

namespace Diagram

/-- What an input of a block is to a loop at an iteration. -/
def operand (d : Diagram α) (group : List BlockId) (id : BlockId) (iteration port : Nat) :
    Except (Failure α) (Operand α group.length) := do
  let driver ← d.driverOf (.input id port)
  match memberAt? group driver with
  | some member => return .unknown member
  | none => return .known (← d.inputSample id port iteration).value

/-- The failure of a block that has no linear equation. -/
def nonLinear (d : Diagram α) (id : BlockId) (op : Operator α) : Failure α :=
  .nonLinearLoop (d.pathOf id) op.typeName

/-- Whether a block of a group has a linear equation at an iteration. -/
def isLinearIn (d : Diagram α) (group : List BlockId) (iteration : Nat) (id : BlockId)
    (op : Operator α) : Except (Failure α) Bool :=
  match op with
  | .delay => .ok (iteration = 0)
  | .product inputs => do
    let drivers ← (List.range inputs).mapM fun port => d.driverOf (.input id port)
    return (drivers.filter fun driver => (memberAt? group driver).isSome).length ≤ 1
  | op => .ok op.isLinear

/-- Refuses a group with a block that has no linear equation. -/
def checkLoop (d : Diagram α) (group : List BlockId) (iteration : Nat) :
    Except (Failure α) Unit :=
  group.forM fun id => do
    let b ← d.block id
    unless ← d.isLinearIn group iteration id b.operator do throw (d.nonLinear id b.operator)

/-- The system with one operand, times a sign, put into an equation. -/
def addOperand {n : Nat} (s : LinearSystem α n) (row : Fin n) (operand : Operand α n) :
    LinearSystem α n :=
  match operand with
  | .unknown member => s.addCoefficient row member 1
  | .known value => s.addSource row (-value)

/-- The equation of one block of a group. -/
def addEquation (d : Diagram α) (group : List BlockId) (iteration : Nat)
    (s : LinearSystem α group.length) (row : Fin group.length) :
    Except (Failure α) (LinearSystem α group.length) := do
  let s := s.setCoefficient row row (-1)
  let id := group[row]
  let b ← d.block id
  let operand := d.operand group id iteration
  match b.operator with
  | .adder inputs =>
    (List.range inputs).foldlM (fun s port => return addOperand s row (← operand port)) s
  | .product inputs => do
    let factors ← (List.range inputs).mapM operand
    let multiply (sofar : α × Option (Fin group.length)) :
        Operand α group.length → α × Option (Fin group.length)
      | .unknown member => (sofar.1, some member)
      | .known value => (sofar.1 * value, sofar.2)
    match factors.foldl multiply (1, none) with
    | (known, some member) => return s.addCoefficient row member known
    | (known, none) => return s.addSource row (-known)
  | .negator => do
    match ← operand 0 with
    | .unknown member => return s.addCoefficient row member (-1)
    | .known value => return s.addSource row value
  | .delay => do
    unless iteration = 0 do throw (d.nonLinear id b.operator)
    match b.inputIndex? initialCondition with
    | some port => return addOperand s row (← operand port)
    | none => throw (.portNotFound (d.pathOf id) initialCondition)
  | op => throw (d.nonLinear id op)

/-- The equations of a group at an iteration. -/
def loopSystem (d : Diagram α) (group : List BlockId) (iteration : Nat) :
    Except (Failure α) (LinearSystem α group.length) :=
  (List.finRange group.length).foldlM (d.addEquation group iteration) (.zero α group.length)

/-- The outputs of a group's blocks at an iteration. -/
def solveLoop (d : Diagram α) (group : List BlockId) (iteration : Nat) :
    Except (Failure α) (List α) := do
  d.checkLoop group iteration
  let s ← d.loopSystem group iteration
  match LinearSystem.solve s with
  | .ok _ s => return s.solution.toList
  | .error reason _ => throw (.singularLoop (", ".intercalate (group.map d.pathOf)) reason)

end Diagram

end CausalBlocks
