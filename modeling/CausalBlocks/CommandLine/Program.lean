import CausalBlocks.CommandLine.Arguments
import CausalBlocks.Demo

/-!
# The program

The program runs a demo and lists the newest value of every signal.
-/

namespace CausalBlocks.CommandLine

/-- How the program ended: its exit code, and what it has to say. -/
structure Outcome where
  exitCode : Nat
  output : List String
  complaint : List String
  deriving DecidableEq, Repr

/-- The time and the newest value of every signal that has one. -/
def report (s : Simulation Float Unit) : Except (Failure Float) (List String) := do
  let lines ← s.diagram.signalNames.filterMapM fun name => do
    let newest := (← s.diagram.signalHistory name).newest?
    return newest.map fun sample => name ++ " = " ++ doubleText sample.value
  return ("time = " ++ doubleText s.time) :: lines

/-- The simulation that the arguments ask for. -/
def prepare (a : Arguments) : Except (Failure Float) (Simulation Float Unit) := do
  let demo : Demo Float ← Demo.named (a.demo.getD "bouncing_ball")
  let settings : Settings Float :=
    { (Settings.standard : Settings Float) with
      step := a.delta, endTime := some a.endTime, realTime := a.realTime }
  let s : Simulation Float Unit := .make { diagram := demo.diagram } settings ()
  let s := { s with locator := a.locator, events := demo.stateEvents }
  if .trace ∈ a.given then return { s with tracers := ← s.tracers.add none }
  return s

/-- Runs the demo that the arguments ask for. -/
def execute (a : Arguments) : Except (Failure Float) (List String) := do
  let s ← prepare a
  match Simulation.run Simulation.unlimited s with
  | .ok _ s => report s
  | .error failure _ => throw failure

/-- The exit code after a failure; a run that cannot be paced has one of its own. -/
def exitCodeAfter : Failure Float → Nat
  | .endlessWait _ => 101
  | _ => 1

/-- How to call the program. -/
def usage : List String :=
  ["Usage: causal-blocks [OPTIONS] [DEMO]",
    "",
    "Arguments:",
    "  [DEMO]  Demo model to run: " ++ ", ".intercalate Demo.names,
    "",
    "Options:",
    "  -d, --delta <DELTA>          Step size of the clock",
    "  -e, --end <END>              Termination time",
    "  -l, --locator <LOCATOR>      pre, post, linear, bisection, regula-falsi or itp",
    "      --realtime <SCALE>       Pace the run against the wall clock with this scale",
    "      --trace                  Log every traced row",
    "      --log-level <LOG_LEVEL>  Log level",
    "  -h, --help                   Print help",
    "  -V, --version                Print version"]

/-- What the program does with its command line. -/
def outcome (texts : List String) : Outcome :=
  match Arguments.read texts with
  | .error .usage => ⟨2, [], usage⟩
  | .error .help => ⟨0, usage, []⟩
  | .error .version => ⟨0, ["causal-blocks 0.1.0"], []⟩
  | .ok a =>
    match execute a with
    | .ok lines => ⟨0, lines, []⟩
    | .error failure => ⟨exitCodeAfter failure, [], ["Error: " ++ failure.message]⟩

end CausalBlocks.CommandLine
