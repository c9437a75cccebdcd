import CausalBlocks.Block.Operator

/-!
# The meaning of operators

`Operator.compute` gives the outputs of a block at an iteration, from a reader
that answers what drives an input at an iteration. Inputs are read in the order
of their ports, so the first failing one decides the failure.
-/

namespace CausalBlocks

/-- The place of an iteration in time. -/
structure Tick (α : Type) where
  /-- How many iterations came before, since the clock started. -/
  iteration : Nat
  time : α
  /-- The step that led here. -/
  step : α
  /-- The time at which the clock started. -/
  start : α

/-- The time since the clock started. -/
def Tick.sinceStart {α : Type} [Scalar α] (tick : Tick α) : α := tick.time - tick.start

/-- What drives an input, given by its place, at an iteration. -/
abbrev Reader (α : Type) := Nat → Nat → Except (Failure α) α

variable {α : Type} [Scalar α]

/-- The value of a function, refused where it has none. -/
def ElementaryFunction.evaluate (f : ElementaryFunction) (block : String) (x : α) :
    Except (Failure α) α :=
  let y := Scalar.elementary f x
  let outside := Failure.outsideDomain block f.name x
  if !Scalar.isNumber y && Scalar.isNumber x then .error outside
  else if (f matches .ln | .log10 | .log2) && x == 0 then .error outside
  else .ok y

namespace Operator

/-- The reciprocal, refused for a value closer to zero than the tolerance. -/
def invert (block : String) (tolerance x : α) : Except (Failure α) α :=
  if Scalar.abs x < tolerance then .error (.divisionByZero block) else .ok (1 / x)

/-- The remainder, refused for a divisor of zero. -/
def reduce (block : String) (x y : α) : Except (Failure α) α :=
  if y == 0 then .error (.divisionByZero block) else .ok (Scalar.remainder x y)

/-- The root, refused for a degree too close to zero and where there is none. -/
def extractRoot (block : String) (tolerance x degree : α) : Except (Failure α) α :=
  if Scalar.abs degree < tolerance then .error (.divisionByZero block)
  else
    let y := Scalar.power x (1 / degree)
    if Scalar.isNumber y then .ok y else .error (.undefinedRoot block degree x)

/-- The port that a selector picks. Port 0 is the selector itself. -/
def pick (block : String) (inputs : Nat) (zeroBased : Bool) (selector : α) :
    Except (Failure α) Nat :=
  let port := Scalar.trunc (if zeroBased then selector + 1 else selector)
  if 1 ≤ port ∧ port ≤ (inputs : α) then .ok (Scalar.toCount port)
  else .error (.selectorOutOfRange block selector)

/-- The value of a sequence at an iteration. -/
def cyclic (block : String) (values : List α) (iteration : Nat) : Except (Failure α) α :=
  match values[iteration % values.length]? with
  | some x => .ok x
  | none => .error (.invalidParameter block .emptySequence)

/-- The outputs of a block at a tick. -/
def compute (op : Operator α) (block : String) (tick : Tick α) (read : Reader α) :
    Except (Failure α) (List α) :=
  let now (port : Nat) := read port tick.iteration
  let all (count : Nat) := (List.range count).mapM now
  let one (value : Except (Failure α) α) : Except (Failure α) (List α) := do return [← value]
  let compare (holds : α → α → Bool) : Except (Failure α) (List α) := do
    let x ← now 0
    let y ← now 1
    return [Scalar.ofBool (holds x y)]
  match op with
  | composite _ => .error (.invalidParameter block .notComputable)
  | clock .. => .ok [tick.time, tick.sinceStart, tick.step]
  | time => .ok [tick.time, tick.sinceStart]
  | split outputs => do return List.replicate outputs (← now 0)
  | log message severity => do
    let x ← now 0
    if x == 0 || severity == .warning then return []
    else throw (.reported block tick.time message)
  | constant value => .ok [value]
  | sequence values => one (cyclic block values tick.iteration)
  | step least => .ok [Scalar.greater tick.step least]
  | delay => one (if tick.iteration = 0 then read 1 0 else read 0 (tick.iteration - 1))
  | negator => do return [-(← now 0)]
  | inverter tolerance => do one (invert block tolerance (← now 0))
  | gain factor => do return [(← now 0) * factor]
  | adder inputs => do return [Scalar.sum (← all inputs)]
  | product inputs => do return [Scalar.product (← all inputs)]
  | modulo => do
    let x ← now 0
    let y ← now 1
    one (reduce block x y)
  | root tolerance => do
    let x ← now 0
    let degree ← now 1
    one (extractRoot block tolerance x degree)
  | power => do
    let x ← now 0
    let y ← now 1
    return [Scalar.power x y]
  | magnitude => do return [Scalar.abs (← now 0)]
  | truncation => do return [Scalar.trunc (← now 0)]
  | clamp (some (low, high)) => do return [Scalar.clamp (← now 0) low high]
  | clamp none => do
    let x ← now 0
    let low ← now 1
    let high ← now 2
    return [Scalar.clamp x low high]
  | function f => do one (f.evaluate block (← now 0))
  | minimum inputs => do return [Scalar.least (← all inputs)]
  | maximum inputs => do return [Scalar.greatest (← all inputs)]
  | lessThan => compare fun x y => x < y
  | atMost => compare fun x y => x ≤ y
  | equals => compare fun x y => x == y
  | not => do return [Scalar.ofBool !(Scalar.isTrue (← now 0))]
  | or inputs => do return [Scalar.ofBool ((← all inputs).any Scalar.isTrue)]
  | and inputs => do return [Scalar.ofBool ((← all inputs).all Scalar.isTrue)]
  | multiplexer inputs zeroBased => do one (now (← pick block inputs zeroBased (← now 0)))

/-- What a block reports at a tick: the message of a log block whose input is
not zero. -/
def notice? (op : Operator α) (block : String) (tick : Tick α) (read : Reader α) :
    Option (Notice α) :=
  match op with
  | log message severity =>
    match read 0 tick.iteration with
    | .ok x => if x == 0 then none else some (.logged severity block tick.time message)
    | .error _ => none
  | _ => none

end Operator

end CausalBlocks
