import CausalBlocks.Diagram.Link

/-!
# Ready-made composites

Each of these adds a composite, or a small group of blocks, wired from operators.
-/

namespace CausalBlocks

variable {α : Type} [Scalar α]

/-- The smallest step that the integrator and the derivator count with. -/
def leastStep : α := 1e-6

/-- The tolerance of an inverter that is not told otherwise. -/
def invertTolerance : α := 1e-30

namespace Edit

/-- Links each source to its target by name, in order. -/
def connectAll (parent : BlockId) (links : List (String × String × Option String)) :
    Edit α Unit :=
  links.forM fun (source, target, input) => connect parent source target none input

/-- Adds blocks by name, in order. -/
def addAll (parent : BlockId) (blocks : List (String × Operator α)) : Edit α Unit :=
  blocks.forM fun (name, operator) => discard <| addBlock parent name operator

/-- Adds a composite whose output is its input plus one. -/
def addIncrement (parent : BlockId) (name : String) : Edit α BlockId := do
  let id ← addComposite parent name "AddOne" ["IN1"] [defaultOutput]
  addAll id [("OneConstant", .constant 1), ("PlusOne", .adder 2)]
  connectAll id [
    ("IN1", "PlusOne", none),
    ("OneConstant", "PlusOne", none),
    ("PlusOne", "OUT1", none)]
  return id

/-- Adds a composite with the backward difference of its input over the step.
Its delay starts at `IN1 - IC · step`, so that the first difference is `IC`. -/
def addDerivator (parent : BlockId) (name : String) : Edit α BlockId := do
  let id ← addComposite parent name "Derivator" ["IN1", initialCondition] [defaultOutput]
  addAll id [
    ("delta_t", .step leastStep),
    ("multIc", .product 2),
    ("neg1", .negator),
    ("sum1", .adder 2),
    ("delay", .delay),
    ("neg2", .negator),
    ("sum2", .adder 2),
    ("mult", .product 2),
    ("inv", .inverter invertTolerance)]
  connectAll id [
    (initialCondition, "multIc", none),
    ("delta_t", "multIc", none),
    ("multIc", "neg1", none),
    ("neg1", "sum1", none),
    ("IN1", "sum1", none),
    ("sum1", "delay", some initialCondition),
    ("IN1", "delay", some "IN1"),
    ("delay", "neg2", none),
    ("neg2", "sum2", none),
    ("IN1", "sum2", none),
    ("sum2", "mult", none),
    ("delta_t", "inv", none),
    ("inv", "mult", none),
    ("mult", "OUT1", none)]
  return id

/-- Adds a composite with the integral of its input from `IC` on, by steps along
the slope at their start. -/
def addIntegrator (parent : BlockId) (name : String) : Edit α BlockId := do
  let id ← addComposite parent name "Integrator" ["IN1", initialCondition] [defaultOutput]
  addAll id [
    ("zero", .constant 0),
    ("delta_t", .step leastStep),
    ("delayIn", .delay),
    ("multDelta", .product 2),
    ("delayState", .delay),
    ("sumState", .adder 2)]
  connectAll id [
    ("zero", "delayIn", some initialCondition),
    ("IN1", "delayIn", some "IN1"),
    ("delayIn", "multDelta", none),
    ("delta_t", "multDelta", none),
    ("multDelta", "sumState", none),
    (initialCondition, "delayState", some initialCondition),
    ("delayState", "sumState", none),
    ("sumState", "delayState", some "IN1"),
    ("sumState", "OUT1", none)]
  return id

/-- Adds a clock that starts at a time and whose step a constant holds. -/
def addFixedRateClock (parent : BlockId) (stem : String) (step start : α) : Edit α BlockId := do
  let clockName := stem ++ "-clock"
  let stepName := stem ++ "-delta"
  let clock ← addBlock parent clockName (.clock start step)
  let _ ← addBlock parent stepName (.constant step)
  connect parent stepName clockName none (some clockStepInput)
  return clock

end Edit

end CausalBlocks
