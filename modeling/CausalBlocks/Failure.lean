import CausalBlocks.Identity
import CausalBlocks.Scalar.Double

/-!
# What can go wrong

Each `Failure` is a cause, with the names and numbers that it is about.
`Failure.message` words it for a reader.
-/

namespace CausalBlocks

/-- Why a parameter is not accepted. -/
inductive Objection (α : Type) where
  | emptySequence
  | notComputable
  | unknownFunction (name : String)
  | notPositive (value : α)
  | rateNotPositive (value : α)
  | notConstant (type : String)
  | rootAsSource
  | noIteration
  | notAboveZero
  | outsideGoldenRange
  | belowZero
  | unknownDemo (name : String) (known : List String)

/-- Why two ports cannot be linked or unlinked. -/
inductive LinkObjection where
  | differentLevels (source target : String)
  | notLinked (source target : String)
  | notDriving (source target : String)

/-- Why a linear system has no unique solution. -/
inductive Singularity where
  | zeroPivot
  | reusedPivot
  deriving DecidableEq, Repr

/-- The causes of failure, from building a diagram to running it. -/
inductive Failure (α : Type) where
  | duplicateBlock (parent name : String)
  | blockNotFound (path : String)
  | portNotFound (block port : String)
  | fanIn (block port : String)
  | noFreeInput (block : String)
  | orderSensitive (block type : String)
  | invalidConnection (parent : String) (objection : LinkObjection)
  | forwardingLoop (port : String)
  | unconnectedInput (block port : String)
  | missingClock (model : String)
  | multipleClocks (model : String) (count : Nat)
  | notComposite (block : String)
  | notFlat (block : String)
  | alreadyMember (node : String)
  | notMember (node : String)
  | nonLinearLoop (path type : String)
  | singularLoop (blocks : String) (reason : Singularity)
  | divisionByZero (block : String)
  | selectorOutOfRange (block : String) (selector : α)
  | undefinedRoot (block : String) (degree radicand : α)
  | outsideDomain (block function : String) (input : α)
  | missingSignal (path : String) (iteration : Nat)
  | missingInput (port : String)
  | reported (block : String) (time : α) (message : String)
  | invalidParameter (parameter : String) (objection : Objection α)
  | endlessWait (seconds : α)
  | callback (message : String)

/-- The wording of an objection to a parameter. -/
def Objection.message : Objection Float → String
  | .emptySequence => "sequence is empty"
  | .notComputable => "composite blocks are not computed directly"
  | .unknownFunction name => "unknown math function '" ++ name ++ "'"
  | .notPositive value => "must be positive, got " ++ doubleText value
  | .rateNotPositive value => "rate must be positive, got " ++ doubleText value
  | .notConstant type => "expected a Constant block, found " ++ type
  | .rootAsSource => "the root block cannot be cloned into itself"
  | .noIteration => "bisection needs at least one iteration"
  | .notAboveZero => "must be strictly positive"
  | .outsideGoldenRange => "must be in [1, 1 + phi]"
  | .belowZero => "must be positive or zero"
  | .unknownDemo name known =>
    "unknown demo '" ++ name ++ "', expected one of " ++ ", ".intercalate known

/-- The wording of an objection to a link. -/
def LinkObjection.message : LinkObjection → String
  | .differentLevels source target => "cannot connect '" ++ source ++ "' to '" ++ target ++ "'"
  | .notLinked source target => "'" ++ source ++ "' is not connected to '" ++ target ++ "'"
  | .notDriving source target => "'" ++ source ++ "' does not drive '" ++ target ++ "'"

/-- The wording of a singularity. -/
def Singularity.message : Singularity → String
  | .zeroPivot => "zero pivot"
  | .reusedPivot => "pivot reused"

/-- The wording of a failure. -/
def Failure.message : Failure Float → String
  | .duplicateBlock parent name =>
    "Duplicate block name '" ++ name ++ "' in '" ++ parent ++ "'"
  | .blockNotFound path => "Block '" ++ path ++ "' not found"
  | .portNotFound block port => "Port '" ++ port ++ "' not found on block '" ++ block ++ "'"
  | .fanIn block port =>
    "Fan-in is not allowed: input '" ++ port ++ "' of '" ++ block ++ "' is already connected"
  | .noFreeInput block => "Block '" ++ block ++ "' has no free input port"
  | .orderSensitive block type =>
    "Block '" ++ block ++ "' (" ++ type ++ ") is order-sensitive: the input port must be named"
  | .invalidConnection parent objection =>
    "Invalid connection in '" ++ parent ++ "': " ++ objection.message
  | .forwardingLoop port => "Loop detected while resolving port '" ++ port ++ "'"
  | .unconnectedInput block port =>
    "Input '" ++ port ++ "' of '" ++ block ++ "' is not connected to a signal source"
  | .missingClock model => "Model '" ++ model ++ "' has no clock block"
  | .multipleClocks model count =>
    "Model '" ++ model ++ "' has " ++ toString count ++ " clock blocks, exactly one is required"
  | .notComposite block => "Block '" ++ block ++ "' is not a composite block"
  | .notFlat block => "Model is not flat: composite block '" ++ block ++ "' remains"
  | .alreadyMember node => "'" ++ node ++ "' is already a member of the dependency graph"
  | .notMember node => "'" ++ node ++ "' is not a member of the dependency graph"
  | .nonLinearLoop path type =>
    "Non-linear block '" ++ path ++ "' (" ++ type ++ ") in algebraic loop"
  | .singularLoop blocks reason =>
    "Singular matrix while solving loop [" ++ blocks ++ "]: " ++ reason.message
  | .divisionByZero block => "Division by zero in block '" ++ block ++ "'"
  | .selectorOutOfRange block selector =>
    "Index " ++ doubleText selector ++ " out of range in block '" ++ block ++ "'"
  | .undefinedRoot block degree radicand =>
    "Invalid root in block '" ++ block ++ "': root of degree " ++ doubleText degree ++
      " of " ++ doubleText radicand ++ " is undefined"
  | .outsideDomain block function input =>
    function ++ " evaluated outside of its domain in block '" ++ block ++
      "' (input " ++ doubleText input ++ ")"
  | .missingSignal path iteration =>
    "No signal on '" ++ path ++ "' at iteration " ++ toString iteration
  | .missingInput port => "No value supplied for model input '" ++ port ++ "'"
  | .reported block time message =>
    "Block '" ++ block ++ "' reported a failure: [" ++ doubleText time ++ "] " ++ message
  | .invalidParameter parameter objection =>
    "Invalid parameter '" ++ parameter ++ "': " ++ objection.message
  | .endlessWait seconds => "Cannot wait for " ++ doubleText seconds ++ " seconds"
  | .callback message => "State event callback failed: " ++ message

end CausalBlocks
