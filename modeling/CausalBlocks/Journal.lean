import CausalBlocks.Failure

/-!
# What is reported along the way

A `Notice` is something worth telling that happened while a diagram was built
or run, in typed form; `Notice.entry` words it as an entry of a log. Notices are
kept in order in a `Journal`.
-/

namespace CausalBlocks

/-- How serious a log block's message is. All but a warning end the run. -/
inductive Severity where
  | warning
  | error
  | critical
  deriving DecidableEq, Repr

/-- What can be reported while building and running a diagram. -/
inductive Notice (α : Type) where
  | nameGenerated (parent name : String)
  | unusualName (name : String)
  | nameInUse (parent name : String)
  | cloneNameInUse (parent name : String)
  | logged (severity : Severity) (block : String) (time : α) (message : String)
  | aborted (cause : Failure α) (time : α)
  | tooSlow (time : α)
  | tracerWaits

/-- Notices in the order in which they were given. -/
abbrev Journal (α : Type) := Array (Notice α)

/-- The level of a log entry. -/
inductive LogLevel where
  | info
  | warn
  | error
  deriving DecidableEq, Repr

/-- A named value beside the message of a log entry. -/
inductive LogValue where
  | text (value : String)
  | number (value : Float)

/-- An entry of a log. -/
structure LogEntry where
  level : LogLevel
  message : String
  fields : List (String × LogValue)

/-- The name of a severity. -/
def Severity.name : Severity → String
  | .warning => "Warning"
  | .error => "Error"
  | .critical => "Critical"

/-- The name of a log level. -/
def LogLevel.name : LogLevel → String
  | .info => "INFO"
  | .warn => "WARN"
  | .error => "ERROR"

/-- The wording of a notice. -/
def Notice.entry : Notice Float → LogEntry
  | .nameGenerated parent name =>
    ⟨.warn, "unnamed block, using generated name", [("parent", .text parent), ("name", .text name)]⟩
  | .unusualName name => ⟨.warn, "block name is not alphanumeric", [("name", .text name)]⟩
  | .nameInUse parent name =>
    ⟨.warn, "block name already in use, block not added",
      [("parent", .text parent), ("name", .text name)]⟩
  | .cloneNameInUse parent name =>
    ⟨.warn, "block name already in use, clone not added",
      [("parent", .text parent), ("name", .text name)]⟩
  | .logged .warning block time message =>
    ⟨.warn, message, [("block", .text block), ("time", .number time)]⟩
  | .logged severity block time message =>
    ⟨.error, message,
      [("block", .text block), ("time", .number time), ("level", .text severity.name)]⟩
  | .aborted cause time =>
    ⟨.error, "simulation aborted", [("error", .text cause.message), ("time", .number time)]⟩
  | .tooSlow time =>
    ⟨.warn, "simulation cannot keep up with the wall clock", [("time", .number time)]⟩
  | .tracerWaits =>
    ⟨.warn, "tracer added while a run is active, it will not receive samples", []⟩

end CausalBlocks
