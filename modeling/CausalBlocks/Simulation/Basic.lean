import CausalBlocks.Block.Compute
import CausalBlocks.Diagram.Composites
import CausalBlocks.Diagram.Parameter
import CausalBlocks.Diagram.Samples
import CausalBlocks.Dependency.Build
import CausalBlocks.Event.Locator
import CausalBlocks.Loop.Solve
import CausalBlocks.Pacing
import CausalBlocks.Schedule.Basic
import CausalBlocks.Trace.Dispatcher

/-!
# Simulations

A simulation is a diagram with everything needed to run it: the settings, the
state events with their callbacks, the values of the model's inputs, and how far
the run has come. Operations that can fail are of type `Run`; what they did before
they failed stays done.

Callbacks see the diagram, may ask for a stop, and share a state of any type `ω`
with the owner of the simulation.
-/

namespace CausalBlocks

/-- How a simulation runs. -/
structure Settings (α : Type) where
  /-- The step of the clock that is added to a model without one. -/
  step : α
  /-- The time at which a run ends, if at any. -/
  endTime : Option α
  recompute : RecomputePolicy
  /-- Seconds on the wall clock for each simulated second, if the two are tied. -/
  realTime : Option α
  /-- How many iterations in a row may be late. -/
  overdueLimit : Nat

/-- What a callback can see and change. -/
structure Scene (α ω : Type) where
  editor : Editor α
  stop : Bool
  world : ω

/-- What happens at a crossing, given its time. -/
abbrev Callback (α ω : Type) := α → EStateM (Failure α) (Scene α ω) Unit

/-- A watched level with what happens when the signal crosses it. Once it has
fired it waits until it can be armed again. -/
structure StateEvent (α ω : Type) where
  watch : Watch α
  callback : Callback α ω
  fired : Bool := false

/-- A model and its run. -/
structure Simulation (α ω : Type) where
  editor : Editor α
  settings : Settings α
  locator : Locator α
  events : List (StateEvent α ω)
  /-- Ends a run, given the model and the number of the next iteration. -/
  condition : Option (Diagram α → Nat → Bool)
  /-- The values of the model's inputs. -/
  inputs : List (String × α)
  scheduler : Scheduler
  /-- The dependencies from which the schedule was made. -/
  graph : Option DependencyGraph
  tracers : Dispatcher α
  pacer : Option (Pacer α)
  /-- Whether someone asked the run to end. -/
  stop : Bool
  clock : Option BlockId
  /-- The ports whose values the tracers get. -/
  signalPorts : List PortId
  /-- The number of the next iteration since the clock started. -/
  iteration : Nat
  /-- The time of the iteration before. -/
  time : α
  /-- The step to the next iteration, while an event is located. -/
  forcedStep : Option α
  /-- Where the clock started before an event moved its start. -/
  firstStart : Option α
  started : Bool
  world : ω

/-- A step of a simulation that can fail on the way. -/
abbrev Run (α ω β : Type) := EStateM (Failure α) (Simulation α ω) β

variable {α ω : Type} [Scalar α]

/-- The settings that are used when none are given. -/
def Settings.standard : Settings α := ⟨0.1, none, .standard, none, 100⟩

namespace Simulation

/-- A simulation at its beginning. -/
def make (editor : Editor α) (settings : Settings α) (world : ω) : Simulation α ω where
  editor
  settings
  locator := Locator.standardFalsePosition
  events := []
  condition := none
  inputs := []
  scheduler := { policy := settings.recompute }
  graph := none
  tracers := {}
  pacer := none
  stop := false
  clock := none
  signalPorts := []
  iteration := 0
  time := 0
  forcedStep := none
  firstStart := none
  started := false
  world

/-- The model. -/
def diagram (s : Simulation α ω) : Diagram α := s.editor.diagram

/-- The simulation with another time at which a run ends. -/
def withEndTime (s : Simulation α ω) (time : α) : Simulation α ω :=
  { s with settings := { s.settings with endTime := some time } }

/-- The simulation with one more event. -/
def withEvent (s : Simulation α ω) (event : StateEvent α ω) : Simulation α ω :=
  { s with events := s.events ++ [event] }

/-- Does something with the model. -/
def edit {β : Type} (action : Edit α β) : Run α ω β := fun s =>
  match action s.editor with
  | .ok x editor => .ok x { s with editor }
  | .error failure editor => .error failure { s with editor }

/-- The model as it is now. -/
def model : Run α ω (Diagram α) := return (← get).editor.diagram

/-- Sends a message to the tracers. -/
def send (message : TraceMessage α) : Run α ω Unit :=
  modify fun s => { s with tracers := s.tracers.send message }

/-- Gives one of the model's inputs a value for all iterations. -/
def setInput (name : String) (value : α) : Run α ω Unit := do
  let d ← model
  let root ← d.block d.root
  if (root.inputIndex? name).isNone then throw (.portNotFound d.name name)
  modify fun s =>
    { s with inputs := (name, value) :: s.inputs.filter fun entry => entry.1 ≠ name }

/-- Adds a tracer to the next run. -/
def addTracer (interval : Option (α × Interpolation)) : Run α ω Unit := do
  let tracers ← (← get).tracers.add interval
  (← get).tracers.notices.forM fun notice => edit (.report notice)
  modify fun s => { s with tracers }

end Simulation

end CausalBlocks
