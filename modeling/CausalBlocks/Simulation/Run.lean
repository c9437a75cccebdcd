import CausalBlocks.Simulation.Crossing

/-!
# Runs

A run begins from scratch, computes iterations until it is to end, and concludes
by telling the tracers. A single step continues from wherever the simulation is.
Nothing forces a run to end by itself, so `run` is told how many iterations it may
take at most.
-/

namespace CausalBlocks.Simulation

variable {α ω : Type} [Scalar α]

/-- Puts the start of the clock back where it was before an event moved it. -/
def restoreStart : Run α ω Unit := do
  match (← get).firstStart with
  | some start =>
    modify fun s => { s with firstStart := none }
    edit (.setClockStart start)
  | none => return ()

/-- Forgets everything computed and goes back to the first iteration. -/
def reset : Run α ω Unit := do
  restoreStart
  edit (.update Diagram.clearSignals)
  modify fun s =>
    { s with
      iteration := 0
      graph := none
      scheduler := s.scheduler.forget
      forcedStep := none
      started := false
      stop := false
      events := s.events.map fun event => { event with fired := false } }

/-- The clock of the model; a model without one gets one that starts at zero. -/
def ensureClock (step : α) : Run α ω BlockId := do
  let d ← model
  match d.clock with
  | .ok id => return id
  | .error (.missingClock _) =>
    let stem ← d.uniqueName d.root "clock" false
    edit (.addFixedRateClock d.root stem step 0)
  | .error failure => throw failure

/-- Starts to count time with a clock. The answer is the time of the next iteration;
before the first one it is also the time of the simulation. -/
def startClock (clock : BlockId) : Run α ω α := do
  modify fun s => { s with clock := some clock }
  let startTime := (← (← get).nextTick).time
  modify fun s => { s with time := if s.iteration = 0 then startTime else s.time }
  return startTime

/-- Starts the tracers and tells them the names of the signals. -/
def startTracers (startTime : α) : Run α ω Unit := do
  modify fun s => { s with signalPorts := s.diagram.signalPorts, tracers := s.tracers.start }
  let s ← get
  if s.tracers.isRunning then
    send (.started (s.signalPorts.map s.diagram.portPath) startTime)

/-- Starts to hold the run back, if it is tied to the wall clock. -/
def startPacer (startTime : α) : Run α ω Unit := modify fun s =>
  match s.settings.realTime with
  | some scale => { s with pacer := some (Pacer.start scale s.settings.overdueLimit startTime) }
  | none => s

/-- Makes the simulation ready for its next iteration: there is a clock, the model
is valid, and the tracers are listening. -/
def prepare : Run α ω Unit := do
  let step := (← get).settings.step
  unless 0 < step ∧ Scalar.bounded step do
    throw (.invalidParameter "delta_t" (.notPositive step))
  let clock ← ensureClock step
  (← model).validate
  let startTime ← startClock clock
  startTracers startTime
  startPacer startTime
  modify fun s => { s with started := true }

/-- Makes the simulation ready, unless it is. -/
def ready : Run α ω Unit := do
  unless (← get).started do prepare

/-- Computes the next iteration, which a crossing may still take back. -/
def attempt : Run α ω Unit := do
  ready
  let tick ← (← get).nextTick
  send (.iteration (← get).iteration tick.time)
  computeStep
  modify fun s => { s with time := tick.time }

/-- Computes one iteration and handles its events. The answer says which one fired,
if any. -/
def advance : Run α ω (Option Nat) := do
  attempt
  let fired ← processEvents
  if fired.isNone then publishSample
  return fired

/-- Computes one iteration and handles its events. -/
def step : Run α ω Unit := discard advance

/-- Whether a run ends before the next iteration: on request, by the condition, or
because less than a step is left until the end time. -/
def isFinished (s : Simulation α ω) : Except (Failure α) Bool := do
  let met :=
    match s.condition with
    | some condition => condition s.diagram s.iteration
    | none => false
  if s.stop || met then return true
  match s.settings.endTime with
  | none => return false
  | some endTime =>
    let next ← s.nextTick
    return decide (Scalar.roundTo (endTime - next.time) 8 < next.step)

/-- Holds the run back until the next iteration, or the end, is due. -/
def pace : Run α ω Unit := do
  let s ← get
  if let some pacer := s.pacer then
    let next := (← s.nextTick).time
    let time :=
      match s.settings.endTime with
      | some endTime => Scalar.lesser next endTime
      | none => next
    let (outcome, pacer) ← (pacer.pass Pacer.work).wait time
    if outcome = .yielded then edit (.report (.tooSlow time))
    modify fun s => { s with pacer := some pacer }

/-- One iteration of a run, paced. -/
def pacedStep : Run α ω Unit := do
  step
  pace

/-- Computes iterations until the run ends, but at most a number of them. The
answer says whether the run ended. -/
def continueRun : Nat → Run α ω Bool
  | 0 => return (← (← get).isFinished)
  | turns + 1 => do
    if ← (← get).isFinished then return true
    pacedStep
    continueRun turns

/-- Computes a number of iterations, or fewer if someone asks for a stop. -/
def takeSteps : Nat → Run α ω Unit
  | 0 => return ()
  | steps + 1 => do
    unless (← get).stop do
      step
      takeSteps steps

/-- Ends the run for the tracers and the pacer. -/
def dismiss (s : Simulation α ω) : Simulation α ω :=
  { s with tracers := s.tracers.finish, pacer := none, started := false }

/-- Does something and concludes the run, also when it fails. -/
def concluding {β : Type} (action : Run α ω β) : Run α ω β := fun s =>
  match action s with
  | .ok x s => .ok x s.dismiss
  | .error failure s =>
    let s := s.dismiss
    (do edit (.report (.aborted failure s.time)); throw failure : Run α ω β) s

/-- More iterations than any run can take: at one in a nanosecond they would last
for a century. -/
def unlimited : Nat := Nat.pow 2 62

/-- Starts a run from scratch. -/
def begin : Run α ω Unit := do
  reset
  prepare

/-- Runs from the start of the clock until the end time, the condition or a stop,
with at most `turns` iterations after the first. The answer says whether the run
ended. -/
def run (turns : Nat) : Run α ω Bool := do
  begin
  concluding do
    pacedStep
    continueRun turns

/-- Runs a number of iterations from the start of the clock, whatever the end time
and the condition say. -/
def runSteps (steps : Nat) : Run α ω Unit := do
  begin
  concluding (takeSteps steps)

end CausalBlocks.Simulation
