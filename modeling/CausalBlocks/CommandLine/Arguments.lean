import CausalBlocks.Decimal.Reading
import CausalBlocks.Event.Locator

/-!
# Command line arguments

The program takes the name of a demo and options. A long option has its value
after an equals sign or as the next argument; a short one also right behind its
letter. A next argument that starts with a dash is never a value. After a lone
double dash only names follow. Every option is given at most once.
-/

namespace CausalBlocks.CommandLine

/-- The options of the program. -/
inductive Switch where
  | delta
  | endTime
  | locator
  | realTime
  | trace
  | logLevel
  | help
  | version
  deriving DecidableEq, Repr

/-- What the command line says, so far. -/
structure Arguments where
  demo : Option String := none
  delta : Float := 0.1
  endTime : Float := 10.0
  locator : Locator Float := Locator.standardFalsePosition
  realTime : Option Float := none
  /-- The options that were given. -/
  given : List Switch := []

/-- Why a command line is not run. -/
inductive Refusal where
  | usage
  | help
  | version
  deriving DecidableEq, Repr

namespace Switch

/-- The option with a long name. -/
def ofLong? : String → Option Switch
  | "delta" => some delta
  | "end" => some endTime
  | "locator" => some locator
  | "realtime" => some realTime
  | "trace" => some trace
  | "log-level" => some logLevel
  | "help" => some help
  | "version" => some version
  | _ => none

/-- The option with a letter. -/
def ofShort? : Char → Option Switch
  | 'd' => some delta
  | 'e' => some endTime
  | 'l' => some locator
  | 'h' => some help
  | 'V' => some version
  | _ => none

/-- Whether the option has a value. -/
def takesValue : Switch → Bool
  | trace | help | version => false
  | _ => true

end Switch

/-- The locator with a name. -/
def locatorNamed? : String → Option (Locator Float)
  | "pre" => some .before
  | "post" => some .after
  | "linear" => some .line
  | "bisection" => some Locator.standardBisection
  | "regula-falsi" => some Locator.standardFalsePosition
  | "itp" => some (.itp Locator.standardItp)
  | _ => none

namespace Arguments

/-- The arguments with an option noted as given, which it may be once. -/
def give (a : Arguments) (option : Switch) : Except Refusal Arguments :=
  if option ∈ a.given then .error .usage else .ok { a with given := option :: a.given }

/-- The arguments with an option that has no value. -/
def setFlag (a : Arguments) (option : Switch) : Except Refusal Arguments :=
  match option with
  | .help => .error .help
  | .version => .error .version
  | option => a.give option

/-- The arguments with an option and its value. -/
def setValue (a : Arguments) (option : Switch) (value : String) : Except Refusal Arguments := do
  let number : Except Refusal Float :=
    match readDouble? value with
    | some x => .ok x
    | none => .error .usage
  let a ← a.give option
  match option with
  | .delta => return { a with delta := ← number }
  | .endTime => return { a with endTime := ← number }
  | .realTime => return { a with realTime := some (← number) }
  | .locator =>
    match locatorNamed? value with
    | some locator => return { a with locator }
    | none => throw .usage
  | .logLevel => return a
  | _ => throw .usage

/-- The arguments with a name, of which there may be one. -/
def setName (a : Arguments) (name : String) : Except Refusal Arguments :=
  if a.demo.isSome then .error .usage else .ok { a with demo := some name }

/-- The arguments with names that follow a lone double dash. -/
def setNames (a : Arguments) (names : List String) : Except Refusal Arguments :=
  names.foldlM setName a

/-- The arguments with the letters of a short option, and the option that still
wants a value. -/
def setShort (a : Arguments) : List Char → Except Refusal (Arguments × Option Switch)
  | [] => .ok (a, none)
  | letter :: rest => do
    match Switch.ofShort? letter with
    | none => throw .usage
    | some option =>
      if option.takesValue then
        match rest with
        | [] => return (a, some option)
        | '=' :: value => return (← a.setValue option (String.ofList value), none)
        | value => return (← a.setValue option (String.ofList value), none)
      else (← a.setFlag option).setShort rest

/-- The arguments with a long option, and the option that still wants a value. -/
def setLong (a : Arguments) (text : List Char) : Except Refusal (Arguments × Option Switch) := do
  let name := text.takeWhile (· ≠ '=')
  match Switch.ofLong? (String.ofList name), text.dropWhile (· ≠ '=') with
  | none, _ => throw .usage
  | some option, [] =>
    if option.takesValue then return (a, some option) else return (← a.setFlag option, none)
  | some option, _ :: value =>
    if option.takesValue then return (← a.setValue option (String.ofList value), none)
    else throw .usage

/-- Reads arguments one by one. -/
def readFrom (a : Arguments) : List String → Except Refusal Arguments
  | [] => .ok a
  | text :: rest => do
    let (a, waiting) ←
      match text.toList with
      | ['-', '-'] => return ← a.setNames rest
      | '-' :: '-' :: long => a.setLong long
      | '-' :: c :: short => a.setShort (c :: short)
      | _ => pure (← a.setName text, none)
    match waiting, rest with
    | none, rest => a.readFrom rest
    | some _, [] => throw .usage
    | some option, value :: rest =>
      match value.toList with
      | '-' :: _ :: _ => throw .usage
      | _ => (← a.setValue option value).readFrom rest

/-- What a command line says. -/
def read (texts : List String) : Except Refusal Arguments := readFrom {} texts

end Arguments

end CausalBlocks.CommandLine
