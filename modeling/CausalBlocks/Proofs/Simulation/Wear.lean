import CausalBlocks.Proofs.Diagram.Retiming
import CausalBlocks.Proofs.Simulation.Offstage

/-!
# What forgetting undoes

Forgetting everything that was computed takes away the samples, puts the start of the clock back
where it was, and arms the events. What is done in a run is undone by it, up to what belongs to
others, and what the next run says anew when it starts: the notices, the tracers, the pacer, the
end time, the state of the owner, and the clock, the traced ports and the time.
-/

namespace CausalBlocks

variable {α ω : Type}

/-- A callback that leaves the model as it is, also where it fails. -/
def Callback.SparesModel (callback : Callback α ω) : Prop :=
  ∀ time scene, (callback time scene).state.editor.diagram = scene.editor.diagram

theorem Scheduler.forget_obtain (s : Scheduler) (g : DependencyGraph) (n : Nat) :
    (s.obtain g n).2.forget = s.forget := by
  rw [obtain]
  split <;> rfl

/-- Setting the start of a clock does so, or fails for want of a clock and leaves the model. -/
theorem Edit.diagram_setClockStart (start : α) (e : Editor α) :
    (setClockStart start e).state = { e with diagram := e.diagram.startingAt start } := by
  cases hclock : e.diagram.clock with
  | ok id => rw [setClockStart_total hclock, EStateM.Result.state]
  | error failure =>
      have hfailed : setClockStart start e = .error failure e :=
        (EStateM.bind_of_ok (s := e) rfl).trans
          (EStateM.bind_of_error (EStateM.lift_of_error hclock))
      rw [hfailed, Diagram.startingAt_of_error hclock, EStateM.Result.state]

namespace Simulation

variable {s s' s'' : Simulation α ω} {f : Simulation α ω → Simulation α ω} {clock : BlockId}

/-- The model without samples, as it was before an event moved the start of its clock. -/
def original (s : Simulation α ω) : Diagram α :=
  match s.firstStart with
  | some start => s.diagram.clearSignals.startingAt start
  | none => s.diagram.clearSignals

/-- The simulation after everything computed has been forgotten. -/
def anew (s : Simulation α ω) : Simulation α ω :=
  { s with
    editor := { s.editor with diagram := s.original }
    events := s.events.map StateEvent.armed
    scheduler := s.scheduler.forget
    graph := none
    stop := false
    iteration := 0
    forcedStep := none
    firstStart := none
    started := false }

/-- The simulation with what others have by the time of another one, and with what that one
said when it started. -/
def marked (s t : Simulation α ω) : Simulation α ω :=
  { s with
    editor := { s.editor with journal := t.editor.journal }
    settings := { s.settings with endTime := t.settings.endTime }
    tracers := t.tracers
    pacer := t.pacer
    world := t.world
    clock := t.clock
    signalPorts := t.signalPorts
    time := t.time }

/-- What became of the one simulation is undone by forgetting. -/
structure Wears (s s' : Simulation α ω) : Prop where
  anew : s'.anew = s.anew.marked s'
  clock : s'.diagram.clock = s.diagram.clock

/-- There is nothing to restore if no event has moved the start, and otherwise the start can be
set if there is a clock. -/
theorem reset_apply (h : s.firstStart = none ∨ ∃ clock, s.diagram.clock = .ok clock) :
    reset s = .ok () s.anew := by
  have hrestored : ∃ s₁, restoreStart s = .ok () s₁ ∧ s₁.diagram.clearSignals = s.original ∧
      s₁ = { s with editor := { s.editor with diagram := s₁.diagram }, firstStart := none } := by
    cases hfirst : s.firstStart with
    | none =>
        refine ⟨s, ?_, by rw [original, hfirst], by rw [← hfirst]; rfl⟩
        refine (EStateM.bind_of_ok (s := s) rfl).trans ?_
        rw [hfirst]
        rfl
    | some start =>
        obtain ⟨clock, hclock⟩ := h.resolve_left fun hnone => by cases hnone.symm.trans hfirst
        have hset := Edit.setClockStart_total (e := s.editor) hclock start
        refine ⟨{ s with
            editor := { s.editor with diagram := s.diagram.startingAt start }
            firstStart := none }, ?_, ?_, rfl⟩
        · refine (EStateM.bind_of_ok (s := s) rfl).trans ?_
          rw [hfirst]
          exact EStateM.bind_eq_ok.mpr ⟨PUnit.unit, { s with firstStart := none }, rfl,
            edit_eq_ok.mpr ⟨_, hset, rfl⟩⟩
        · rw [original, hfirst]
          exact Diagram.clearSignals_startingAt _ _
  obtain ⟨s₁, hrestore, horiginal, hs₁⟩ := hrestored
  refine (EStateM.bind_of_ok hrestore).trans ?_
  rw [anew, ← horiginal, hs₁]
  rfl

namespace Wears

theorem refl (s : Simulation α ω) : Wears s s := ⟨rfl, rfl⟩

theorem trans (h : Wears s s') (h' : Wears s' s'') : Wears s s'' where
  anew := by
    rw [h'.anew, h.anew]
    rfl
  clock := h'.clock.trans h.clock

/-- Samples, marks of events and what is kept of schedules do not matter. -/
theorem of_sameShape (hmodel : s.diagram.SameShape s'.diagram)
    (hevents : s'.events.map StateEvent.armed = s.events.map StateEvent.armed)
    (hscheduler : s'.scheduler.forget = s.scheduler.forget)
    (hrest : s' = { s' with
      settings := { s.settings with endTime := s'.settings.endTime }, locator := s.locator,
      condition := s.condition, inputs := s.inputs, firstStart := s.firstStart }) : Wears s s' where
  anew := by
    have hfirst : s'.firstStart = s.firstStart := by rw [hrest]
    have horiginal : s'.original = s.original := by
      rw [original, original, hfirst, hmodel]
    have hlocator : s'.locator = s.locator := by rw [hrest]
    have hcondition : s'.condition = s.condition := by rw [hrest]
    have hinputs : s'.inputs = s.inputs := by rw [hrest]
    have hsettings := congrArg Simulation.settings hrest
    rw [Simulation.anew, horiginal, hevents, hscheduler, hlocator, hcondition, hinputs, hsettings]
    rfl
  clock := hmodel.clock

theorem onstage (hf : Onstage f) (s : Simulation α ω) : Wears s (f s) := by
  refine of_sameShape ?_ (hf.armed s) ?_ ?_
  · rw [hf.keeps s]
    exact .refl _
  · rw [hf.keeps s]
  · rw [hf.keeps s]

/-- The first move of the start is one from where it was. -/
theorem remember {b : Block α} {start step : α} (hclock : s.diagram.clock = .ok clock)
    (hb : s.diagram.block? clock = some b) (hoperator : b.operator = .clock start step) :
    Wears s { s with firstStart := s.firstStart.or (some start) } where
  anew := by
    have hsame : ({ s with firstStart := s.firstStart.or (some start) } : Simulation α ω).original =
        s.original := by
      cases hfirst : s.firstStart with
      | some first =>
          rw [original, original, hfirst]
          rfl
      | none =>
          have hbare : s.diagram.clearSignals.block? clock = some b.bare := by
            rw [Diagram.block?_clearSignals, hb, Option.map_some]
          have hself := Diagram.startingAt_self
            ((Diagram.clock_clearSignals _).trans hclock) hbare hoperator
          rw [original, original, hfirst]
          exact hself
    rw [Simulation.anew, hsame]
    rfl
  clock := rfl

/-- Later moves do not matter, as the first start is known. -/
theorem move {first : α} (hfirst : s.firstStart = some first) (start : α) :
    Wears s { s with editor := { s.editor with diagram := s.diagram.startingAt start } } where
  anew := by
    have hsame : ({ s with editor := { s.editor with diagram := s.diagram.startingAt start } } :
        Simulation α ω).original = s.original := by
      simp only [original, hfirst, diagram, Diagram.clearSignals_startingAt,
        Diagram.startingAt_startingAt]
    rw [Simulation.anew, hsame]
    rfl
  clock := Diagram.clock_startingAt _ _

/-- What is forgotten twice is forgotten. -/
theorem anew_self (s : Simulation α ω) : Wears s s.anew where
  anew := by
    have hcleared : s.original.clearSignals = s.original := by
      rw [original]
      split
      next => rw [Diagram.clearSignals_startingAt, Diagram.clearSignals_clearSignals]
      next => rw [Diagram.clearSignals_clearSignals]
    have harmed : (s.events.map StateEvent.armed).map StateEvent.armed =
        s.events.map StateEvent.armed := by
      rw [List.map_map]
      rfl
    have horiginal : s.anew.original = s.original := hcleared
    rw [Simulation.anew, horiginal]
    simp only [Simulation.anew, harmed]
    rfl
  clock := by
    change s.original.clock = _
    rw [original]
    split
    next => rw [Diagram.clock_startingAt, Diagram.clock_clearSignals]
    next => rw [Diagram.clock_clearSignals]

variable (h : Wears s s')
include h

theorem original : s'.original = s.original :=
  congrArg (fun u : Simulation α ω => u.editor.diagram) h.anew

theorem events : s'.events.map StateEvent.armed = s.events.map StateEvent.armed :=
  congrArg Simulation.events h.anew

theorem settings_step : s'.settings.step = s.settings.step :=
  (congrArg (fun u : Simulation α ω => u.settings.step) h.anew :)

/-- The callbacks are those of the beginning. -/
theorem callbacks {P : Callback α ω → Prop} (hP : ∀ event ∈ s.events, P event.callback) :
    ∀ event ∈ s'.events, P event.callback := by
  intro event hevent
  have harmed : event.armed ∈ s.events.map StateEvent.armed := by
    rw [← h.events]
    exact List.mem_map_of_mem hevent
  obtain ⟨old, hold, hsame⟩ := List.mem_map.mp harmed
  have hcallback : event.callback = old.callback := (congrArg StateEvent.callback hsame).symm
  rw [hcallback]
  exact hP old hold

end Wears

end Simulation

end CausalBlocks
