import CausalBlocks.Scalar.Basic
import CausalBlocks.Journal
import CausalBlocks.Text.Lowercase

/-!
# Operators

What a block does is given by its `Operator`. An operator determines the ports
of its block and which of the inputs are needed at an iteration; how its outputs
follow from them is in `CausalBlocks.Block.Compute`.
-/

namespace CausalBlocks

/-- The operators. A composite holds other blocks and computes nothing itself. -/
inductive Operator (α : Type) where
  | composite (type : String)
  /-- The source of time, with the time of its first tick and the step it
  announces there. -/
  | clock (start step : α)
  | constant (value : α)
  /-- The values in turn, one per iteration, over and over. -/
  | sequence (values : List α)
  /-- The time, and the time since the clock started. -/
  | time
  /-- The step of the clock, but at least a minimum. -/
  | step (minimum : α)
  | negator
  /-- The reciprocal, refused closer to zero than a tolerance. -/
  | inverter (tolerance : α)
  | gain (factor : α)
  | adder (inputs : Nat)
  | product (inputs : Nat)
  | modulo
  /-- The root of the first input whose degree is the second. -/
  | root (tolerance : α)
  | power
  | magnitude
  | truncation
  /-- The first input between two bounds: fixed ones, or the other inputs. -/
  | clamp (bounds : Option (α × α))
  | function (f : ElementaryFunction)
  | minimum (inputs : Nat)
  | maximum (inputs : Nat)
  | lessThan
  | atMost
  | equals
  | not
  | or (inputs : Nat)
  | and (inputs : Nat)
  /-- One of the inputs, picked by the first; the picks count from zero or from
  one. -/
  | multiplexer (inputs : Nat) (zeroBased : Bool)
  /-- The input on every output. -/
  | split (outputs : Nat)
  /-- The input of the iteration before, and at first an initial condition. -/
  | delay
  /-- A message for every iteration at which the input is not zero. -/
  | log (message : String) (severity : Severity)

/-- The output port meant when none is named. -/
def defaultOutput : String := "OUT1"

/-- The input port of a delay with its first value. -/
def initialCondition : String := "IC"

/-- The input port of a clock with the step to the next iteration. -/
def clockStepInput : String := "h"

/-- A prefix followed by the numbers from one. -/
def numbered (stem : String) (count : Nat) : List String :=
  (List.range count).map fun i => stem ++ toString (i + 1)

/-- The name of a function. -/
def ElementaryFunction.name : ElementaryFunction → String
  | .sin => "sin"
  | .cos => "cos"
  | .tan => "tan"
  | .asin => "asin"
  | .acos => "acos"
  | .atan => "atan"
  | .sinh => "sinh"
  | .cosh => "cosh"
  | .tanh => "tanh"
  | .exp => "exp"
  | .ln => "ln"
  | .log10 => "log10"
  | .log2 => "log2"
  | .sqrt => "sqrt"
  | .floor => "floor"
  | .ceil => "ceil"

/-- All functions. -/
def ElementaryFunction.all : List ElementaryFunction :=
  [.sin, .cos, .tan, .asin, .acos, .atan, .sinh, .cosh, .tanh, .exp, .ln, .log10, .log2, .sqrt,
    .floor, .ceil]

/-- The function with a name in any case; the natural logarithm has two. -/
def ElementaryFunction.ofName {α : Type} (name : String) : Except (Failure α) ElementaryFunction :=
  let lower := lowercase name
  if lower = "log" then .ok .ln
  else
    match all.find? fun f => f.name == lower with
    | some f => .ok f
    | none => .error (.invalidParameter "function" (.unknownFunction lower))

namespace Operator

variable {α : Type}

/-- The name of the operator; a composite goes by the name of its type. -/
def typeName : Operator α → String
  | composite type => type
  | clock .. => "Clock"
  | constant _ => "Constant"
  | sequence _ => "Sequence"
  | time => "Time"
  | step _ => "DeltaT"
  | negator => "Negator"
  | inverter _ => "Inverter"
  | gain _ => "Gain"
  | adder _ => "Adder"
  | product _ => "Product"
  | modulo => "Modulo"
  | root _ => "Root"
  | power => "Power"
  | magnitude => "Abs"
  | truncation => "Int"
  | clamp _ => "Clamp"
  | function _ => "Generic"
  | minimum _ => "Min"
  | maximum _ => "Max"
  | lessThan => "LessThan"
  | atMost => "LessThanOrEquals"
  | equals => "Equals"
  | not => "Not"
  | or _ => "Or"
  | and _ => "And"
  | multiplexer .. => "Multiplexer"
  | split _ => "Split"
  | delay => "Delay"
  | log .. => "Logging"

/-- Whether the block holds other blocks. -/
def isComposite : Operator α → Bool
  | composite _ => true
  | _ => false

/-- Whether the block is a source of time. -/
def isClock : Operator α → Bool
  | clock .. => true
  | _ => false

/-- Whether the block may take part in an algebraic loop that is solved as a
linear system. A product is linear only with one unknown factor, which depends
on the loop. -/
def isLinear : Operator α → Bool
  | adder _ | product _ | negator | delay => true
  | _ => false

/-- Whether the inputs mean different things, so that a link must name the one
it goes to. -/
def isOrderSensitive : Operator α → Bool
  | modulo | root _ | power | lessThan | atMost | multiplexer .. | clamp none => true
  | _ => false

/-- The names of the input ports; a composite declares its own. -/
def inputNames : Operator α → List String
  | composite _ | constant _ | sequence _ | time | step _ => []
  | clock .. => [clockStepInput]
  | adder n | product n | minimum n | maximum n | or n | and n => numbered "IN" n
  | modulo | root _ | power | lessThan | atMost | equals => numbered "IN" 2
  | clamp (some _) => numbered "IN" 1
  | clamp none => numbered "IN" 3
  | multiplexer n _ => "select" :: numbered "IN" n
  | delay => ["IN1", initialCondition]
  | negator | inverter _ | gain _ | magnitude | truncation | function _ | not | split _ | log .. =>
    numbered "IN" 1

/-- The names of the output ports; a composite declares its own. -/
def outputNames : Operator α → List String
  | composite _ | log .. => []
  | clock .. => ["time", "rel_time", "delta_t"]
  | time => [defaultOutput, "relative"]
  | split n => numbered "OUT" n
  | _ => [defaultOutput]

/-- The inputs whose value of the same iteration is needed. A delay needs its
initial condition at first and nothing later, which is what breaks a loop
through it; a clock reads its step one iteration behind. -/
def neededInputs (op : Operator α) (iteration : Nat) : List Nat :=
  match op with
  | clock .. | composite _ => []
  | delay => if iteration = 0 then [1] else []
  | _ => List.range op.inputNames.length

end Operator

end CausalBlocks
