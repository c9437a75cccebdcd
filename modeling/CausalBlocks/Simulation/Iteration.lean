import CausalBlocks.Simulation.Basic

/-!
# One iteration

An iteration computes the groups of the schedule in order: a block from its
inputs, an input of the model from its given value, a loop as a whole. A block
that is not due repeats its last outputs. Every output gets one sample.
-/

namespace CausalBlocks.Simulation

variable {α ω : Type} [Scalar α]

/-- The clock of a run; before the run, that of the model. -/
def clockOf (s : Simulation α ω) : Except (Failure α) BlockId :=
  match s.clock with
  | some id => .ok id
  | none => s.diagram.clock

/-- The start and the announced step of the clock. -/
def clockParameters (s : Simulation α ω) (clock : BlockId) : Except (Failure α) (α × α) := do
  match (← s.diagram.block clock).operator with
  | .clock start step => return (start, step)
  | _ => throw (.missingClock s.diagram.name)

/-- The step from an iteration to the next: the imposed one while an event is
located, else the input of the clock, else the step it announced. -/
def stepAfter (s : Simulation α ω) (clock : BlockId) (announced : α) (iteration : Nat) :
    Except (Failure α) α := do
  match s.forcedStep with
  | some step => return step
  | none =>
    let linked :=
      match (← s.diagram.block clock).inputs with
      | input :: _ => input.incoming.isSome
      | [] => false
    if linked then return (← s.diagram.inputSample clock 0 iteration).value
    else return announced

/-- The place in time of the next iteration. The first is at the start of the
clock, each later one a step after the one before. -/
def nextTick (s : Simulation α ω) : Except (Failure α) (Tick α) := do
  let clock ← s.clockOf
  let (start, announced) ← s.clockParameters clock
  match s.iteration with
  | 0 => return { iteration := 0, time := start, step := announced, start }
  | before + 1 =>
    let port := PortId.output clock 0
    match (← s.diagram.port port).history[before]? with
    | none => throw (.missingSignal (s.diagram.portPath port) before)
    | some last =>
      let step ← s.stepAfter clock announced before
      return { iteration := before + 1, time := last.value + step, step, start }

/-- Repeats the last value of a port. -/
def holdPort (time : α) (port : PortId) : Run α ω Unit := do
  let d ← model
  match (← d.port port).history.newest? with
  | some last => edit (.record port ⟨time, last.value⟩)
  | none => throw (.missingSignal (d.portPath port) (← get).iteration)

/-- Repeats the last outputs of a block. -/
def holdOutputs (id : BlockId) (time : α) : Run α ω Unit := do
  let outputs := (← (← model).block id).outputs.length
  ((List.range outputs).map (PortId.output id)).forM (holdPort time)

/-- Whether a block computes at a tick. -/
def isDue (id : BlockId) (tick : Tick α) : Run α ω Bool := do
  return mustCompute (← (← model).block id).rate tick.iteration tick.time

/-- What drives the inputs of a block. -/
def readerOf (d : Diagram α) (id : BlockId) : Reader α := fun port iteration =>
  (d.inputSample id port iteration).map Sample.value

/-- Reports what a block has to say at a tick, if anything. -/
def announce (id : BlockId) (operator : Operator α) (tick : Tick α) : Run α ω Unit := do
  let d ← model
  match operator.notice? (d.pathOf id) tick (readerOf d id) with
  | some notice => edit (.report notice)
  | none => return ()

/-- Gives the outputs of a block their values. -/
def setOutputs (id : BlockId) (time : α) (values : List α) : Run α ω Unit :=
  values.zipIdx.forM fun (value, index) => edit (.record (.output id index) ⟨time, value⟩)

/-- Computes the outputs of a block from its inputs. -/
def applyOperator (id : BlockId) (tick : Tick α) : Run α ω Unit := do
  let d ← model
  let operator := (← d.block id).operator
  announce id operator tick
  setOutputs id tick.time (← operator.compute (d.pathOf id) tick (readerOf d id))

/-- Computes a block, or repeats its outputs if it is not due. -/
def computeBlock (id : BlockId) (tick : Tick α) : Run α ω Unit := do
  if ← isDue id tick then applyOperator id tick else holdOutputs id tick.time

/-- Gives an input of the model its value. Other ports get theirs elsewhere. -/
def feedInput (port : PortId) (tick : Tick α) : Run α ω Unit := do
  let s ← get
  if port.block = s.diagram.root ∧ port.side = .input then
    let name := (← s.diagram.port port).name
    match s.inputs.lookup name with
    | some value => edit (.record port ⟨tick.time, value⟩)
    | none => throw (.missingInput name)

/-- Gives the output of a block in a loop its value, or repeats the last one if the
block is not due. -/
def settleMember (tick : Tick α) (id : BlockId) (value : α) : Run α ω Unit := do
  if ← isDue id tick then edit (.record (.output id 0) ⟨tick.time, value⟩)
  else holdOutputs id tick.time

/-- Solves a loop for the outputs of its blocks. -/
def computeLoop (blocks : List BlockId) (tick : Tick α) : Run α ω Unit := do
  let values ← (← model).solveLoop blocks tick.iteration
  (blocks.zip values).forM fun (id, value) => settleMember tick id value

/-- Computes a group of the schedule. -/
def computeGroup (tick : Tick α) : Group → Run α ω Unit
  | .block id => computeBlock id tick
  | .port port => feedInput port tick
  | .cycle blocks => computeLoop blocks tick

/-- The dependencies for an iteration, made anew. -/
def renewGraph (iteration : Nat) : Run α ω DependencyGraph := do
  let graph ← (← model).dependencies iteration
  modify fun s => { s with graph := some graph }
  return graph

/-- The dependencies for an iteration, made anew where the policy asks for it. -/
def currentGraph (iteration : Nat) : Run α ω DependencyGraph := do
  let s ← get
  match s.graph, s.scheduler.policy.recomputesAt iteration with
  | some graph, false => return graph
  | _, _ => renewGraph iteration

/-- The schedule for an iteration. -/
def currentSchedule (iteration : Nat) : Run α ω (List Group) := do
  let graph ← currentGraph iteration
  let (groups, scheduler) := (← get).scheduler.obtain graph iteration
  modify fun s => { s with scheduler }
  return groups

/-- Computes the next iteration. -/
def computeStep : Run α ω Unit := do
  let tick ← (← get).nextTick
  let groups ← currentSchedule tick.iteration
  groups.forM (computeGroup tick)
  modify fun s => { s with iteration := s.iteration + 1 }

/-- Takes the last iteration back. -/
def rewindStep : Run α ω Unit := do
  modify fun s => { s with iteration := s.iteration - 1 }
  edit (.update Diagram.rewind)

/-- Computes the next iteration a given step after the one before. -/
def computeForced (step : α) : Run α ω Unit := fun s =>
  match computeStep { s with forcedStep := some step } with
  | .ok _ s => .ok () { s with forcedStep := none }
  | .error failure s => .error failure { s with forcedStep := none }

/-- The newest values of the traced signals; a signal without samples has a value
that is not a number. -/
def newestValues (s : Simulation α ω) : List α :=
  s.signalPorts.map fun port =>
    match s.diagram.historyOf port with
    | .ok history => (history.newest?.map Sample.value).getD (0 / 0)
    | .error _ => 0 / 0

/-- Sends the newest values to the tracers, if there are any. -/
def publishSample : Run α ω Unit := do
  let s ← get
  if s.tracers.isRunning then send (.sample ⟨s.time, s.newestValues⟩)

end CausalBlocks.Simulation
