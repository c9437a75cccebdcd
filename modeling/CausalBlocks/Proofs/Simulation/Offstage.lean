import CausalBlocks.Proofs.Lockstep
import CausalBlocks.Proofs.Simulation.Crossing
import CausalBlocks.Simulation.Run

/-!
# Off stage

An iteration reads the model, the events and how far the run has come. Who listens to the run,
what holds it back, and when it is to end do not concern it; nor do the notices, and the
dependencies and schedules that are kept concern it only where it chooses its schedule. A relation
between simulations that differ in nothing more is kept by everything else that a turn does.
-/

namespace CausalBlocks

variable {α β ω : Type}

/-- What goes on behind the scenes of a simulation. -/
structure Backstage (α : Type) where
  journal : Journal α
  graph : Option DependencyGraph
  scheduler : Scheduler
  recompute : RecomputePolicy

/-- What does not happen on the stage: behind it, in front of it, and when it is to end. -/
structure Offstage (α : Type) extends Backstage α where
  tracers : Dispatcher α
  pacer : Option (Pacer α)
  endTime : Option α

/-- An event as it is before it has fired. -/
def StateEvent.armed (event : StateEvent α ω) : StateEvent α ω := { event with fired := false }

/-- The tracers with one more message, if they are running. -/
def Dispatcher.told (tracers : Dispatcher α) (message : TraceMessage α) : Dispatcher α :=
  if tracers.isRunning then tracers.send message else tracers

namespace Simulation

/-! ### Crossings -/

section Crossings

variable [Scalar α]

/-- Takes the last iteration back, locates the crossings and computes an iteration that ends at
the earliest of them. -/
def approach (first : Candidate α) (candidates : List (Candidate α)) : Run α ω (α × Nat) := do
  let lower := first.bracket.left.time
  rewindStep
  let located ← candidates.mapM (locate lower)
  let (time, index) := earliest first.event located
  computeForced (time - lower)
  return (time, index)

/-- Makes an event that has been approached happen. -/
def conclude (time : α) (index : Nat) : Run α ω Nat := do
  modify fun s => { s with time }
  publishSample
  setFired index true
  fire index time
  restart time
  return index

theorem handleCrossing_eq (first : Candidate α) (candidates : List (Candidate α)) :
    (handleCrossing first candidates : Run α ω Nat) =
      approach first candidates >>= fun (time, index) => conclude time index := by
  simp only [handleCrossing, approach, conclude, bind_assoc, pure_bind]

end Crossings

theorem Trial.approach [Scalar α] {s s' : Simulation α ω} {first : Candidate α}
    {candidates : List (Candidate α)} {time : α} {index : Nat} (hs : s.Steady)
    (h : approach first candidates s = .ok (time, index) s') : Trial s s' := by
  simp only [Simulation.approach, EStateM.bind_eq_ok, EStateM.pure_eq_ok] at h
  obtain ⟨_, s₁, hrewind, located, s₂, hlocate, _, s₃, hcompute, _, rfl⟩ := h
  have hback := Trial.rewindStep hs hrewind
  have hlocated := (Trial.locateAll hback.steady hlocate).1
  exact (hback.trans hlocated).trans (Trial.computeForced hlocated.steady hcompute)

/-! ### Listeners and pacers -/

theorem tell_apply (message : TraceMessage α) (s : Simulation α ω) :
    (if s.tracers.isRunning then send message else pure () : Run α ω Unit) s =
      .ok () { s with tracers := s.tracers.told message } := by
  rw [Dispatcher.told]
  by_cases hrunning : s.tracers.isRunning = true
  · rw [if_pos hrunning, if_pos hrunning]
    rfl
  · rw [if_neg hrunning, if_neg hrunning]
    rfl

theorem startTracers_apply (startTime : α) (s : Simulation α ω) :
    startTracers startTime s = .ok () { s with
      signalPorts := s.diagram.signalPorts
      tracers := s.tracers.start.told
        (.started (s.diagram.signalPorts.map s.diagram.portPath) startTime) } :=
  tell_apply _ { s with signalPorts := s.diagram.signalPorts, tracers := s.tracers.start }

section Starting

variable [Scalar α]

theorem publishSample_apply (s : Simulation α ω) : publishSample s =
    .ok () { s with tracers := s.tracers.told (.sample ⟨s.time, s.newestValues⟩) } :=
  tell_apply _ s

theorem startPacer_apply (startTime : α) (s : Simulation α ω) :
    startPacer startTime s = .ok () { s with
      pacer := (s.settings.realTime.map fun scale =>
        Pacer.start scale s.settings.overdueLimit startTime).or s.pacer } := by
  rw [startPacer, EStateM.modify_eq_ok]
  cases s.settings.realTime <;> rfl

/-- Starts a run with a clock that was found in a valid model. -/
def launch (clock : BlockId) : Run α ω Unit := do
  let startTime ← startClock clock
  startTracers startTime
  startPacer startTime
  modify fun s => { s with started := true }

end Starting

/-! ### Differences -/

open EStateM

variable {R R₀ R' E : Simulation α ω → Simulation α ω → Prop}
  {f : Simulation α ω → Simulation α ω} {s t : Simulation α ω}

/-- The simulation with something else off stage. -/
def withOffstage (s : Simulation α ω) (o : Offstage α) : Simulation α ω :=
  { s with
    editor := { s.editor with journal := o.journal }
    graph := o.graph
    scheduler := o.scheduler
    settings := { s.settings with recompute := o.recompute, endTime := o.endTime }
    tracers := o.tracers
    pacer := o.pacer }

/-- A change on the stage, of how far the run has come and which events have fired. -/
structure Onstage (f : Simulation α ω → Simulation α ω) : Prop where
  commutes : ∀ s o, f (s.withOffstage o) = (f s).withOffstage o
  keeps : ∀ s, f s = { s with
    clock := (f s).clock, signalPorts := (f s).signalPorts, time := (f s).time,
    forcedStep := (f s).forcedStep, started := (f s).started, events := (f s).events }
  armed : ∀ s, (f s).events.map StateEvent.armed = s.events.map StateEvent.armed

/-- A relation between simulations that differ at most off stage. It stays when both change on the
stage, get the same sample, or give the same notice, and when the same is done about tracers and
pacers. -/
structure Hidden (R : Simulation α ω → Simulation α ω → Prop) : Prop where
  offstage : ∀ {s t}, R s t → ∃ o, t = s.withOffstage o
  onstage : ∀ {f}, Onstage f → ∀ {s t}, R s t → R (f s) (f t)
  tracers : ∀ (f : Dispatcher α → Dispatcher α) {s t}, R s t →
    R { s with tracers := f s.tracers } { t with tracers := f t.tracers }
  pacer : ∀ (f : Option (Pacer α) → Option (Pacer α)) {s t}, R s t →
    R { s with pacer := f s.pacer } { t with pacer := f t.pacer }
  record : ∀ p x, Blind R (edit (.record p x))
  report : ∀ notice, Blind R (edit (.report notice))

theorem onstage_time (time : Simulation α ω → α) (htime : ∀ s o, time (s.withOffstage o) = time s) :
    Onstage fun s : Simulation α ω => { s with time := time s } :=
  ⟨fun s o => by rw [htime]; rfl, fun _ => rfl, fun _ => rfl⟩

theorem onstage_forcedStep (step : Option α) :
    Onstage fun s : Simulation α ω => { s with forcedStep := step } :=
  ⟨fun _ _ => rfl, fun _ => rfl, fun _ => rfl⟩

theorem onstage_fired (index : Nat) (fired : Bool) : Onstage fun s : Simulation α ω =>
    { s with events := s.events.modify index fun event => { event with fired } } where
  commutes _ _ := rfl
  keeps _ := rfl
  armed s := by
    refine List.ext_getElem? fun i => ?_
    simp only [List.getElem?_map, List.getElem?_modify]
    cases s.events[i]? with
    | none => rfl
    | some event =>
        rw [Option.map_eq_map, Option.map_some, Option.map_some, Option.map_some]
        split <;> rfl

namespace Hidden

variable (h : Hidden R)
include h

/-- The simulation may be read on the stage. -/
theorem read {f : Simulation α ω → Run α ω β} (hsame : ∀ s o, f (s.withOffstage o) = f s)
    (hf : ∀ s, Blind R (f s)) : Blind R (get >>= f) := by
  refine .get_bind (fun s t hst => ?_) hf
  obtain ⟨o, rfl⟩ := h.offstage hst
  exact hsame s o

theorem update (hf : Onstage f) : Blind R (modify f : Run α ω PUnit) :=
  .modify fun _ _ => h.onstage hf

theorem model : Blind R (model : Run α ω (Diagram α)) :=
  h.read (fun _ _ => rfl) fun _ => .pure _

theorem send (message : TraceMessage α) : Blind R (send message : Run α ω Unit) :=
  .modify fun _ _ => h.tracers fun tracers => tracers.send message

/-! ### One iteration -/

theorem holdPort (time : α) (p : PortId) : Blind R (holdPort time p : Run α ω Unit) := by
  refine .bind h.model fun d => .bind (.lift _) fun port => ?_
  cases port.history.newest? with
  | some last => exact h.record _ _
  | none => exact h.read (fun _ _ => rfl) fun _ => .throw _

theorem holdOutputs (id : BlockId) (time : α) : Blind R (holdOutputs id time : Run α ω Unit) :=
  .bind h.model fun _ => .bind (.lift _) fun _ => .forM (fun p => h.holdPort time p) _

theorem setOutputs (id : BlockId) (time : α) (values : List α) :
    Blind R (setOutputs id time values : Run α ω Unit) :=
  .forM (fun _ => h.record _ _) _

theorem feedInput (p : PortId) (tick : Tick α) : Blind R (feedInput p tick : Run α ω Unit) := by
  refine h.read (fun _ _ => rfl) fun s => .ite (.bind (.lift _) fun port => ?_) (.pure _)
  dsimp only
  cases s.inputs.lookup port.name with
  | some value => exact h.record _ _
  | none => exact .throw _

variable [Scalar α]

theorem isDue (id : BlockId) (tick : Tick α) : Blind R (isDue id tick : Run α ω Bool) :=
  .bind h.model fun _ => .bind (.lift _) fun _ => .pure _

theorem announce (id : BlockId) (operator : Operator α) (tick : Tick α) :
    Blind R (announce id operator tick : Run α ω Unit) := by
  refine .bind h.model fun d => ?_
  cases operator.notice? (d.pathOf id) tick (readerOf d id) with
  | some notice => exact h.report notice
  | none => exact .pure _

theorem applyOperator (id : BlockId) (tick : Tick α) :
    Blind R (applyOperator id tick : Run α ω Unit) :=
  .bind h.model fun _ => .bind (.lift _) fun _ => .bind (h.announce _ _ _) fun _ =>
    .bind (.lift _) fun _ => h.setOutputs _ _ _

theorem computeBlock (id : BlockId) (tick : Tick α) :
    Blind R (computeBlock id tick : Run α ω Unit) :=
  .bind (h.isDue id tick) fun _ => .ite (h.applyOperator id tick) (h.holdOutputs id tick.time)

theorem computeLoop (ids : List BlockId) (tick : Tick α) :
    Blind R (computeLoop ids tick : Run α ω Unit) := by
  refine .bind h.model fun _ => .bind (.lift _) fun _ => .forM (fun (id, value) => ?_) _
  exact .bind (h.isDue id tick) fun _ => .ite (h.record _ _) (h.holdOutputs id tick.time)

theorem computeGroup (tick : Tick α) (group : Group) :
    Blind R (computeGroup tick group : Run α ω Unit) := by
  cases group with
  | block id => exact h.computeBlock id tick
  | port p => exact h.feedInput p tick
  | cycle ids => exact h.computeLoop ids tick

/-- What the tracers are told does not depend on who they are. -/
theorem publishSample : Blind R (publishSample : Run α ω Unit) := by
  intro s t hst
  obtain ⟨o, rfl⟩ := h.offstage hst
  rw [publishSample_apply, publishSample_apply]
  exact .ok () (h.tracers (fun tracers => tracers.told (.sample ⟨s.time, s.newestValues⟩)) hst)

/-! ### Events -/

omit [Scalar α] in
theorem setFired (index : Nat) (fired : Bool) : Blind R (setFired index fired : Run α ω Unit) :=
  h.update (onstage_fired index fired)

theorem inspectEvent (index : Nat) :
    Blind R (inspectEvent index : Run α ω (Option (Candidate α))) := by
  refine h.read (fun _ _ => rfl) fun s => ?_
  split
  next => exact .pure _
  next => exact .bind (.lift _) fun _ => .ite (.bind (h.setFired _ _) fun _ => .pure _) (.pure _)
  next => exact .bind (.lift _) fun _ => .ite (.bind (.lift _) fun _ => .pure _) (.pure _)

theorem inspectEvents : Blind R (inspectEvents : Run α ω (List (Candidate α))) :=
  h.read (fun _ _ => rfl) fun _ => .filterMapM h.inspectEvent _

/-! ### Beginnings -/

theorem startClock (clock : BlockId) : Blind R (startClock clock : Run α ω α) := by
  refine .bind (h.update ⟨fun _ _ => rfl, fun _ => rfl, fun _ => rfl⟩) fun _ =>
    h.read (fun _ _ => rfl) fun s => .bind (.lift _) fun tick => .bind (h.update ?_) fun _ => .pure _
  exact onstage_time (fun s => if s.iteration = 0 then tick.time else s.time) fun _ _ => rfl

omit [Scalar α] in
theorem startTracers (startTime : α) : Blind R (startTracers startTime : Run α ω Unit) := by
  intro s t hst
  obtain ⟨o, rfl⟩ := h.offstage hst
  rw [startTracers_apply, startTracers_apply]
  have hports : Onstage fun u : Simulation α ω => { u with signalPorts := s.diagram.signalPorts } :=
    ⟨fun _ _ => rfl, fun _ => rfl, fun _ => rfl⟩
  let names := s.diagram.signalPorts.map s.diagram.portPath
  exact .ok () (h.onstage hports
    (h.tracers (fun tracers => tracers.start.told (.started names startTime)) hst))

theorem startPacer (startTime : α) : Blind R (startPacer startTime : Run α ω Unit) := by
  intro s t hst
  obtain ⟨o, rfl⟩ := h.offstage hst
  rw [startPacer_apply, startPacer_apply]
  let started := s.settings.realTime.map fun scale =>
    Pacer.start scale s.settings.overdueLimit startTime
  exact .ok () (h.pacer (fun pacer => started.or pacer) hst)

/-- Whoever finds the clock, what follows starts alike. -/
theorem launch (clock : BlockId) : Blind R (launch clock : Run α ω Unit) :=
  .bind (h.startClock clock) fun startTime => .bind (h.startTracers startTime) fun _ =>
    .bind (h.startPacer startTime) fun _ => h.update ⟨fun _ _ => rfl, fun _ => rfl, fun _ => rfl⟩

theorem ensureClock
    (hadd : ∀ parent stem step start, Blind R (edit (.addFixedRateClock parent stem step start)))
    (step : α) : Blind R (ensureClock step : Run α ω BlockId) := by
  refine .bind h.model fun d => ?_
  split
  next => exact .pure _
  next => exact .bind (.lift _) fun _ => hadd _ _ _ _
  next => exact .throw _

/-- Runs are made ready alike if they get the same clock. -/
theorem prepare (hE : ∀ s t, R s t → E s t) (hst : R s t)
    (hensure : ∀ step, Agree R E (Simulation.ensureClock step s) (Simulation.ensureClock step t)) :
    Agree R E (prepare s) (prepare t) := by
  obtain ⟨o, rfl⟩ := h.offstage hst
  refine .get_bind (.ite ?_ (.error _ (hE _ _ hst)))
  refine (hensure _).bind fun clock s₁ t₁ _ h₁ => Blind.agree ?_ h₁ hE
  exact .bind h.model fun _ => .bind (.lift _) fun _ => h.launch clock

end Hidden

/-! ### Trials -/

section Trials

variable [Scalar α]

/-- A step that is forced is computed like any other. -/
theorem Hidden.computeForced {step : α} (hR : Hidden R) (hE : Hidden E)
    (h : Agree R E (computeStep { s with forcedStep := some step })
      (computeStep { t with forcedStep := some step })) :
    Agree R E (computeForced step s) (computeForced step t) := by
  have hfree : Onstage fun s : Simulation α ω => { s with forcedStep := none } :=
    onstage_forcedStep none
  rw [Simulation.computeForced, Simulation.computeForced]
  generalize computeStep { s with forcedStep := some step } = r,
    computeStep { t with forcedStep := some step } = r' at h ⊢
  cases h with
  | ok _ h => exact .ok () (hR.onstage hfree h)
  | error failure h => exact .error failure (hE.onstage hfree h)

namespace Hidden

variable (h : Hidden R) (hcompute : Blind R computeStep) (hrewind : Blind R rewindStep)
include h hcompute

theorem blind_computeForced (step : α) : Blind R (Simulation.computeForced step : Run α ω Unit) :=
  fun _ _ hst => h.computeForced h (hcompute _ _ (h.onstage (onstage_forcedStep (some step)) hst))

include hrewind

theorem probe (watch : Watch α) (lower time : α) :
    Blind R (probe watch lower time : Run α ω α) := by
  refine .bind (h.blind_computeForced hcompute _) fun _ => .bind h.model fun _ =>
    .bind (.lift _) fun history => .bind hrewind fun _ => ?_
  cases history.newest? with
  | some sample => exact .pure _
  | none => exact h.read (fun _ _ => rfl) fun _ => .throw _

theorem search (watch : Watch α) (lower : α) (search : Search α) :
    Blind R (search.run (Simulation.probe watch lower) : Run α ω α) := by
  induction search with
  | found time => exact .pure time
  | probe time next ih => exact .bind (h.probe hcompute hrewind watch lower time) ih

theorem locate (lower : α) (candidate : Candidate α) :
    Blind R (locate lower candidate : Run α ω (α × Nat)) :=
  h.read (fun _ _ => rfl) fun _ => .bind (h.search hcompute hrewind _ lower _) fun _ => .pure _

/-- Crossings are approached alike if iterations are computed and taken back alike. -/
theorem approach (first : Candidate α) (candidates : List (Candidate α)) :
    Blind R (approach first candidates : Run α ω (α × Nat)) :=
  .bind hrewind fun _ => .bind (.mapM (h.locate hcompute hrewind _) _) fun _ =>
    .bind (h.blind_computeForced hcompute _) fun _ => .pure _

end Hidden

end Trials

/-! ### Turns -/

section Turns

variable [Scalar α]

/-- Iterations are attempted alike if making ready and computing them is alike. -/
theorem Hidden.attempt (hR₀ : Hidden R₀) (hR : Hidden R) (hE : ∀ s t, R₀ s t → E s t)
    (hready : Agree R₀ E (Simulation.ready s) (Simulation.ready t))
    (hcompute : ∀ s t, R₀ s t → Agree R E (computeStep s) (computeStep t)) :
    Agree R E (attempt s) (attempt t) := by
  refine hready.bind fun _ s₀ t₀ _ h₀ => .get_bind ?_
  obtain ⟨o, rfl⟩ := hR₀.offstage h₀
  refine ((Blind.lift s₀.nextTick).agree h₀ hE).bind fun tick s₁ t₁ _ h₁ => .get_bind ?_
  obtain ⟨o, rfl⟩ := hR₀.offstage h₁
  refine ((hR₀.send (.iteration s₁.iteration tick.time)).agree h₁ hE).bind
    fun _ s₂ t₂ _ h₂ => (hcompute s₂ t₂ h₂).bind fun _ s₃ t₃ _ h₃ => ?_
  exact .ok _ (hR.onstage (onstage_time (fun _ => tick.time) fun _ _ => rfl) h₃)

variable (hR : Hidden R) (hE : ∀ s t, R s t → E s t)
include hR hE

/-- What has been approached happens alike if the callback and the restart are alike. -/
theorem Hidden.conclude {index : Nat} {time : α} (hst : R s t)
    (hfire : ∀ s₁ t₁, s₁.events = s.events.modify index (fun event => { event with fired := true }) →
      R s₁ t₁ → Agree R' E ((fire index time >>= fun _ => restart time) s₁)
        ((fire index time >>= fun _ => restart time) t₁)) :
    Agree R' E (conclude time index s) (conclude time index t) := by
  have htime : Onstage fun s : Simulation α ω => { s with time } :=
    onstage_time (fun _ => time) fun _ _ => rfl
  have hconclude : (Simulation.conclude time index : Run α ω Nat) = (do
      modify fun s => { s with time }
      Simulation.publishSample
      Simulation.setFired index true
      (fire index time >>= fun _ => restart time)
      return index) := by
    simp only [Simulation.conclude, bind_assoc]
  rw [hconclude]
  refine ((hR.update htime).agree hst hE).bind fun _ s₁ t₁ hs₁ h₁ => ?_
  refine (hR.publishSample.agree h₁ hE).bind fun _ s₂ t₂ hs₂ h₂ => ?_
  refine ((hR.setFired index true).agree h₂ hE).bind fun _ s₃ t₃ hs₃ h₃ => ?_
  refine (hfire s₃ t₃ ?_ h₃).bind fun _ _ _ _ h₄ => .ok index h₄
  rw [modify_eq_ok.mp hs₃, publishSample_ok hs₂, modify_eq_ok.mp hs₁]

/-- Turns are taken alike if iterations are attempted and events handled alike. -/
theorem Hidden.advance (hattempt : Agree R₀ E (Simulation.attempt s) (Simulation.attempt t))
    (hevents : ∀ s₁ t₁, Simulation.attempt s = .ok () s₁ → R₀ s₁ t₁ →
      Agree R E (processEvents s₁) (processEvents t₁)) :
    Agree R E (advance s) (advance t) := by
  refine hattempt.bind fun _ s₁ t₁ htried h₁ =>
    (hevents s₁ t₁ htried h₁).bind fun fired s₂ t₂ _ h₂ => ?_
  have hpublish : Blind R (do
      if fired.isNone then Simulation.publishSample
      return fired : Run α ω (Option Nat)) := by
    cases fired with
    | none => exact .bind hR.publishSample fun _ => .pure none
    | some i => exact .pure (some i)
  exact hpublish.agree h₂ hE

end Turns

/-! ### Runs -/

section Runs

variable [Scalar α]

theorem Hidden.dismiss (hR : Hidden R) (hst : R s t) : R s.dismiss t.dismiss :=
  hR.onstage (f := fun s => { s with started := false }) ⟨fun _ _ => rfl, fun _ => rfl, fun _ => rfl⟩
    (hR.pacer (fun _ => none) (hR.tracers Dispatcher.finish hst))

/-- Runs conclude alike after they went alike, or failed alike. -/
theorem Hidden.concluding {action : Run α ω β} (hR : Hidden R) (hE : Hidden E)
    (h : Agree R E (action s) (action t)) :
    Agree R E (concluding action s) (concluding action t) := by
  rw [Simulation.concluding, Simulation.concluding]
  generalize action s = r, action t = r' at h
  cases h with
  | ok x h => exact .ok x (hR.dismiss h)
  | @error failure s t h =>
      have hdismissed := hE.dismiss h
      have htime : t.dismiss.time = s.dismiss.time := by
        obtain ⟨o, rfl⟩ := hE.offstage h
        rfl
      dsimp only
      rw [htime]
      exact (hE.report _ _ _ hdismissed).bind fun _ _ _ _ h => .error failure h

/-- Steps are taken alike if turns are. -/
theorem Hidden.takeSteps (hR : Hidden R)
    (hadvance : ∀ s t, R s t → Agree R E (Simulation.advance s) (Simulation.advance t))
    (steps : Nat) : ∀ s t, R s t → Agree R E (takeSteps steps s) (takeSteps steps t) := by
  induction steps with
  | zero => exact fun s t h => .ok () h
  | succ steps ih =>
      intro s t h
      refine .get_bind ?_
      have hstop : t.stop = s.stop := by
        obtain ⟨o, rfl⟩ := hR.offstage h
        rfl
      rw [hstop]
      exact .ite (.ok () h) ((hadvance s t h).discard.bind fun _ s₁ t₁ _ h₁ => ih s₁ t₁ h₁)

end Runs

end Simulation

end CausalBlocks
