import CausalBlocks.Simulation.Iteration

/-!
# State events

After an iteration, the armed events whose signals crossed their levels are
looked at. The iteration is taken back, each crossing is located by computing and
taking back trial iterations, and an iteration that ends at the earliest crossing
takes its place. Then the event's callback runs and the clock starts anew there.
-/

namespace CausalBlocks

/-- An event that crossed, with its bracket measured from its level. -/
structure Candidate (α : Type) where
  event : Nat
  watch : Watch α
  bracket : Bracket α

namespace Simulation

variable {α ω : Type} [Scalar α]

/-- Marks an event as fired or armed. -/
def setFired (index : Nat) (fired : Bool) : Run α ω Unit :=
  modify fun s => { s with events := s.events.modify index fun event => { event with fired } }

/-- Looks at one event: arms it again if it can be, or finds out whether it
crossed. -/
def inspectEvent (index : Nat) : Run α ω (Option (Candidate α)) := do
  let s ← get
  match s.events[index]? with
  | none => return none
  | some { watch, fired := true, .. } =>
    if ← watch.canRearm s.diagram then setFired index false
    return none
  | some { watch, .. } =>
    if ← watch.crossed s.diagram then
      let history ← s.diagram.signalHistory watch.signal
      let shift (sample : Sample α) : Sample α := { sample with value := sample.value - watch.level }
      return (Watch.lastTwo? history).map fun (before, after) =>
        ⟨index, watch, ⟨shift before, shift after⟩⟩
    else return none

/-- The value of a signal above its level at a time, found by a trial iteration
that is taken back. -/
def probe (watch : Watch α) (lower time : α) : Run α ω α := do
  computeForced (time - lower)
  let newest := (← (← model).signalHistory watch.signal).newest?
  rewindStep
  match newest with
  | some sample => return sample.value - watch.level
  | none => throw (.missingSignal watch.signal (← get).iteration)

/-- The sooner of the best located time and the next one. The first one counts only if
it is bounded. -/
def sooner (best : Option (α × Nat)) (next : α × Nat) : Option (α × Nat) :=
  match best with
  | none => if Scalar.bounded next.1 then some next else none
  | some current => if next.1 < current.1 then some next else best

/-- The earliest of the located times, the first of several; `first` at infinity
if none is bounded. -/
def earliest (first : Nat) (located : List (α × Nat)) : α × Nat :=
  (located.foldl sooner none).getD (Scalar.infinity, first)

/-- Finds the time of a candidate's crossing. -/
def locate (lower : α) (candidate : Candidate α) : Run α ω (α × Nat) := do
  let search := (← get).locator.search candidate.watch.direction candidate.bracket
  return (← search.run (probe candidate.watch lower), candidate.event)

/-- Runs the callback of an event. -/
def fire (index : Nat) (time : α) : Run α ω Unit := fun s =>
  match s.events[index]? with
  | none => .ok () s
  | some event =>
    match event.callback time { editor := s.editor, stop := s.stop, world := s.world } with
    | .ok _ scene =>
      .ok () { s with editor := scene.editor, stop := scene.stop, world := scene.world }
    | .error failure scene =>
      .error failure { s with editor := scene.editor, stop := scene.stop, world := scene.world }

/-- Starts the clock anew at a time, with no samples. -/
def restart (time : α) : Run α ω Unit := do
  let s ← get
  let (start, _) ← s.clockParameters (← s.diagram.clock)
  modify fun s => { s with firstStart := s.firstStart.or (some start) }
  edit (.update Diagram.clearSignals)
  edit (.setClockStart time)
  let clock ← (← model).clock
  modify fun s =>
    { s with clock := some clock, iteration := 0, graph := none, scheduler := s.scheduler.forget }

/-- Looks at all events in order. The answer lists those that crossed. -/
def inspectEvents : Run α ω (List (Candidate α)) := do
  (List.range (← get).events.length).filterMapM inspectEvent

/-- Puts an iteration that ends at the earliest crossing in the place of the last
one, and restarts there. The answer says which event fired. -/
def handleCrossing (first : Candidate α) (candidates : List (Candidate α)) : Run α ω Nat := do
  let lower := first.bracket.left.time
  rewindStep
  let located ← candidates.mapM (locate lower)
  let (time, index) := earliest first.event located
  computeForced (time - lower)
  modify fun s => { s with time }
  publishSample
  setFired index true
  fire index time
  restart time
  return index

/-- Handles the events that the last iteration crossed. The answer says which one
fired, if any. -/
def processEvents : Run α ω (Option Nat) := do
  match ← inspectEvents with
  | [] => return none
  | first :: rest => return some (← handleCrossing first (first :: rest))

end Simulation

end CausalBlocks
