import CausalBlocks.Proofs.Simulation.Evaluation

/-!
# Simulations without events

While no event can fire, each step of a run computes one iteration with the schedule of the
dependencies at that iteration, whether it was made anew or kept. What a beginning and a
step need in order to succeed is all about the model, the clock and the step itself.
-/

namespace CausalBlocks.Simulation

variable {α ω : Type} [Scalar α] {s s' s₁ : Simulation α ω} {g : DependencyGraph} {clock : BlockId}
  {tick : Tick α} {groups : List Group}

/-! ### The schedule of an iteration -/

/-- What is kept for the next iteration, from the third one on, is of the dependencies that
never change any more. -/
def Current (s : Simulation α ω) : Prop := ∀ k, s.iteration = k + 2 →
  ∃ g, s.diagram.dependencies 1 = .ok g ∧ s.graph = some g ∧ s.scheduler.kept = some g.schedule

theorem recomputesAt_of_lt_two (policy : RecomputePolicy) {iteration : Nat} (h : iteration < 2) :
    policy.recomputesAt iteration = true := by
  cases policy <;> simp [RecomputePolicy.recomputesAt, h]

omit [Scalar α] in
/-- Where nothing is made anew, what is kept is as good. -/
theorem Current.kept (hs : s.Current) (hg : s.diagram.dependencies s.iteration = .ok g)
    (hkeep : s.scheduler.policy.recomputesAt s.iteration = false) :
    s.graph = some g ∧ s.scheduler.kept = some g.schedule := by
  obtain hearly | ⟨k, hk⟩ : s.iteration < 2 ∨ ∃ k, s.iteration = k + 2 := by
    by_cases h : s.iteration < 2
    · exact .inl h
    · exact .inr ⟨s.iteration - 2, by omega⟩
  · rw [recomputesAt_of_lt_two _ hearly] at hkeep
    cases hkeep
  · obtain ⟨g', hg', hgraph, hkept⟩ := hs k hk
    rw [hk, Diagram.dependencies_succ, hg'] at hg
    cases hg
    exact ⟨hgraph, hkept⟩

omit [Scalar α] in
theorem currentGraph_total (hs : s.Current) (hg : s.diagram.dependencies s.iteration = .ok g) :
    currentGraph s.iteration s = .ok g { s with graph := some g } := by
  have hrenew : renewGraph s.iteration s = .ok g { s with graph := some g } :=
    EStateM.bind_eq_ok.mpr ⟨s.diagram, s, rfl, EStateM.bind_eq_ok.mpr
      ⟨g, s, EStateM.lift_eq_ok.mpr ⟨hg, rfl⟩, rfl⟩⟩
  refine EStateM.bind_eq_ok.mpr ⟨s, s, rfl, ?_⟩
  cases hpolicy : s.scheduler.policy.recomputesAt s.iteration with
  | true =>
      cases s.graph <;> exact hrenew
  | false =>
      have hgraph := (hs.kept hg hpolicy).1
      rw [hgraph]
      exact EStateM.pure_eq_ok.mpr ⟨rfl, by rw [← hgraph]⟩

omit [Scalar α] in
/-- An iteration uses the schedule of its dependencies. -/
theorem currentSchedule_total (hs : s.Current) (hg : s.diagram.dependencies s.iteration = .ok g) :
    currentSchedule s.iteration s = .ok g.schedule
      { s with graph := some g, scheduler := { s.scheduler with kept := some g.schedule } } := by
  have hobtain : s.scheduler.obtain g s.iteration =
      (g.schedule, { s.scheduler with kept := some g.schedule }) := by
    rw [Scheduler.obtain]
    split
    next groups hkept hpolicy =>
      rw [(hs.kept hg hpolicy).2] at hkept
      cases hkept
      rw [← (hs.kept hg hpolicy).2]
    next => rfl
  refine EStateM.bind_eq_ok.mpr ⟨g, _, currentGraph_total hs hg, ?_⟩
  refine EStateM.bind_eq_ok.mpr ⟨_, _, rfl, ?_⟩
  rw [hobtain]
  rfl

omit [Scalar α] in
/-- An iteration has a schedule only if it has dependencies. -/
theorem Current.dependencies_ok (hs : s.Current)
    (h : currentSchedule s.iteration s = .ok groups s') :
    ∃ g, s.diagram.dependencies s.iteration = .ok g := by
  by_cases hearly : s.iteration < 2
  · obtain ⟨g, s₁, hgraph, _⟩ := EStateM.bind_eq_ok.mp h
    obtain ⟨_, s, hget, hgraph⟩ := EStateM.bind_eq_ok.mp hgraph
    obtain ⟨rfl, rfl⟩ := EStateM.get_eq_ok.mp hget
    rw [recomputesAt_of_lt_two _ hearly] at hgraph
    have hrenew : renewGraph s.iteration s = .ok g s₁ := by
      revert hgraph
      cases s.graph <;> exact id
    simp only [renewGraph, EStateM.bind_eq_ok, model_eq_ok, EStateM.lift_eq_ok] at hrenew
    obtain ⟨_, _, ⟨rfl, rfl⟩, g', _, ⟨hg', _⟩, _⟩ := hrenew
    exact ⟨g', hg'⟩
  · obtain ⟨k, hk⟩ : ∃ k, s.iteration = k + 2 := ⟨s.iteration - 2, by omega⟩
    obtain ⟨g, hg, _⟩ := hs k hk
    exact ⟨g, by rw [hk, Diagram.dependencies_succ, hg]⟩

/-- To compute an iteration is to compute the groups of its dependencies. -/
theorem Current.computes (hs : s.Current) (hok : computeStep s = .ok () s') :
    ∃ tick g s₁, s.nextTick = .ok tick ∧ s.diagram.dependencies s.iteration = .ok g ∧
      g.schedule.forM (computeGroup tick) { s with
        graph := some g, scheduler := { s.scheduler with kept := some g.schedule } } = .ok () s₁ ∧
      s' = { s₁ with iteration := s₁.iteration + 1 } := by
  simp only [computeStep, EStateM.bind_eq_ok, EStateM.get_eq_ok, EStateM.lift_eq_ok,
    EStateM.modify_eq_ok] at hok
  obtain ⟨_, s, ⟨rfl, rfl⟩, tick, s, ⟨htick, rfl⟩, groups, s₁, hschedule, _, s₂, hgroups, rfl⟩ :=
    hok
  rw [iteration_of_nextTick htick] at hschedule
  obtain ⟨g, hg⟩ := hs.dependencies_ok hschedule
  cases (currentSchedule_total hs hg).symm.trans hschedule
  exact ⟨tick, g, s₂, htick, hg, hgroups, rfl⟩

/-- A computed iteration used the schedule of its dependencies, and what is kept then is of
them. -/
theorem Current.computed (hs : s.Current) (hsteady : s.Steady)
    (hok : computeStep s = .ok () s') : ∃ tick g parts,
      s.diagram.dependencies s.iteration = .ok g ∧ Iterated s s' tick g.schedule parts ∧
        s'.Current := by
  obtain ⟨tick, groups, parts, hiterated⟩ := hsteady.computeStep hok
  obtain ⟨g, hg, hgraph, hkept⟩ : ∃ g, s.diagram.dependencies s.iteration = .ok g ∧
      s'.graph = some g ∧ s'.scheduler.kept = some g.schedule := by
    obtain ⟨tick', g, s₂, _, hg, hgroups, rfl⟩ := hs.computes hok
    have hcovers := DependencyGraph.schedule_covers
      (DependencyGraph.describesNodes_of_dependencies hg)
    let s₁ : Simulation α ω :=
      { s with graph := some g, scheduler := { s.scheduler with kept := some g.schedule } }
    have hfitted : s₁.diagram.Fitted := hsteady.fitted
    have hcovered : s₁.diagram.Covers g.schedule := hcovers
    obtain ⟨_, hrecorded, _⟩ := computeGroups_ok hfitted hcovered hgroups
    rw [hrecorded.rest]
    exact ⟨g, hg, rfl, rfl⟩
  cases hkept.symm.trans hiterated.kept
  refine ⟨tick, g, parts, hg, hiterated, fun k hk => ⟨g, ?_, hgraph, hkept⟩⟩
  rw [hiterated.rest] at hk
  have hbefore : s.iteration = k + 1 := Nat.succ.inj hk
  rw [hiterated.shape.dependencies, ← Diagram.dependencies_succ s.diagram k, ← hbefore, hg]

/-! ### The place in time -/

omit [Scalar α] in
/-- Unless it is forced, the step is read where the clock has a link. -/
theorem stepAfter_unforced (hlive : (s.diagram.block? clock).isSome) (hforced : s.forcedStep = none)
    (announced : α) (iteration : Nat) : s.stepAfter clock announced iteration =
      if (s.diagram.incoming (.input clock 0)).isSome then
        (s.diagram.inputSample clock 0 iteration).map Sample.value else .ok announced := by
  obtain ⟨b, hb⟩ := Option.isSome_iff_exists.mp hlive
  rw [Diagram.incoming, Diagram.port?_eq (q := .input clock 0) hb, Block.ports, stepAfter, hforced,
    Diagram.block_eq hb]
  dsimp only [bind, Except.bind]
  cases b.inputs <;> rfl

variable {t : Simulation α ω}

/-- Where the clock, its last time and its step are found again, so is the next tick. -/
theorem nextTick_refines (hclock : s.clock = some clock) (hclock' : t.clock = some clock)
    (hiteration : t.iteration = s.iteration)
    (hparameters : (s.clockParameters clock).Refines (t.clockParameters clock))
    (hlast : ∀ port, s.diagram.port? (.output clock 0) = some port →
      t.diagram.history? (.output clock 0) = s.diagram.history? (.output clock 0))
    (hstep : ∀ announced iteration,
      (s.stepAfter clock announced iteration).Refines (t.stepAfter clock announced iteration)) :
    s.nextTick.Refines t.nextTick := by
  intro tick hok
  obtain ⟨id, hid, hok⟩ := Except.bind_eq_ok.mp hok
  rw [clockOf, hclock] at hid
  cases hid
  obtain ⟨parameters, hs, hok⟩ := Except.bind_eq_ok.mp hok
  have hid' : t.clockOf = .ok clock := by rw [clockOf, hclock']
  refine Except.bind_eq_ok.mpr ⟨clock, hid', Except.bind_eq_ok.mpr
    ⟨parameters, hparameters parameters hs, ?_⟩⟩
  rw [hiteration]
  cases hbefore : s.iteration with
  | zero =>
      rw [hbefore] at hok
      exact hok
  | succ before =>
      rw [hbefore] at hok
      obtain ⟨port, hport, hok⟩ := Except.bind_eq_ok.mp hok
      have hport := Diagram.port_eq_ok.mp hport
      have hhistory := hlast port hport
      rw [Diagram.history?, Diagram.history?, hport, Option.map_some] at hhistory
      obtain ⟨port', hport', hsame⟩ := Option.map_eq_some_iff.mp hhistory
      refine Except.bind_eq_ok.mpr ⟨port', Diagram.port_eq hport', ?_⟩
      rw [hsame]
      split at hok
      next => cases hok
      next last hlast =>
        obtain ⟨step, hs, hok⟩ := Except.bind_eq_ok.mp hok
        exact Except.bind_eq_ok.mpr ⟨step, hstep _ _ step hs, hok⟩

/-! ### Simulations underway -/

theorem ready_of_started (h : s.started = true) : ready s = .ok () s :=
  EStateM.bind_eq_ok.mpr ⟨s, s, rfl, by rw [if_pos h]; rfl⟩

/-- Without events there is nothing to handle. -/
theorem processEvents_eventless (h : s.events = []) : processEvents s = .ok none s := by
  have hinspect : inspectEvents s = .ok [] s := by
    refine EStateM.bind_eq_ok.mpr ⟨s, s, rfl, ?_⟩
    rw [h]
    rfl
  rw [processEvents, EStateM.bind_of_ok hinspect]
  rfl

theorem publishSample_total (s : Simulation α ω) : ∃ s', publishSample s = .ok () s' := by
  refine EStateM.bind_total (a := s) rfl ?_
  split
  · exact ⟨_, rfl⟩
  · exact ⟨s, rfl⟩

/-- A simulation between two steps of a run in which no event can fire. -/
structure Underway (s : Simulation α ω) : Prop where
  wellFormed : s.diagram.WellFormed
  ported : s.diagram.Ported
  clock : ∃ clock, s.diagram.clock = .ok clock ∧ s.clock = some clock
  steady : s.Steady
  sized : s.Sized
  current : s.Current
  eventless : s.events = []
  unforced : s.forcedStep = none
  running : s.stop = false
  started : s.started = true

namespace Underway

omit [Scalar α] in
/-- What is told to the tracers makes no difference. -/
theorem congr (h : s.Underway) (hs' : s' = { s with time := s'.time, tracers := s'.tracers }) :
    s'.Underway := by
  rw [hs']
  exact ⟨h.wellFormed, h.ported, h.clock, ⟨h.steady.fitted, h.steady.graph, h.steady.kept⟩, h.sized,
    h.current, h.eventless, h.unforced, h.running, h.started⟩

/-- A computed iteration used the schedule of its dependencies, and leads on. -/
theorem computed (h : s.Underway) (hok : computeStep s = .ok () s') : ∃ tick g parts,
    s.diagram.dependencies s.iteration = .ok g ∧ Iterated s s' tick g.schedule parts ∧
      s'.Underway := by
  obtain ⟨tick, g, parts, hg, hiterated, hcurrent⟩ := h.current.computed h.steady hok
  refine ⟨tick, g, parts, hg, hiterated, ?_⟩
  obtain ⟨clock, hclock, hsame⟩ := h.clock
  have hrest := hiterated.rest
  refine ⟨hiterated.shape.wellFormed h.wellFormed, hiterated.shape.ported h.ported, ⟨clock, ?_, ?_⟩,
    hiterated.steady h.steady, hiterated.sized h.sized, hcurrent, ?_, ?_, ?_, ?_⟩
  · rw [hiterated.shape.clock]
    exact hclock
  · rw [hrest]
    exact hsame
  · rw [hrest]
    exact h.eventless
  · rw [hrest]
    exact h.unforced
  · rw [hrest]
    exact h.running
  · rw [hrest]
    exact h.started

/-- Where the dependencies have no cycle, an iteration that can be evaluated is computed. -/
theorem computeStep_total {d' : Diagram α} (h : s.Underway) (htick : s.nextTick = .ok tick)
    (hg : s.diagram.dependencies s.iteration = .ok g) (hacyclic : g.Acyclic)
    (heval : s.diagram.Evaluated s.inputs tick d') :
    ∃ s', computeStep s = .ok () s' ∧
      ∀ p ∈ s.diagram.computedPorts, s'.diagram.history? p = d'.history? p := by
  have hiteration := iteration_of_nextTick htick
  obtain ⟨order, horder, hschedule⟩ := Diagram.exists_ordered hg hacyclic
  rw [← hiteration] at horder
  let s₁ : Simulation α ω :=
    { s with graph := some g, scheduler := { s.scheduler with kept := some g.schedule } }
  have hs₁ : currentSchedule tick.iteration s = .ok g.schedule s₁ := by
    rw [hiteration]
    exact currentSchedule_total h.current hg
  obtain ⟨s₂, records, hnodes, hrecorded, hhistories⟩ :=
    computeNodes_total (s := s₁) heval h.wellFormed h.ported horder
  rw [← hschedule] at hnodes
  exact EStateM.exists_bind (a := s) rfl
    (EStateM.exists_bind (EStateM.lift_eq_ok.mpr ⟨htick, rfl⟩) (EStateM.exists_bind hs₁
      (EStateM.exists_bind hnodes ⟨_, rfl, hhistories⟩)))

/-- A step computes one iteration; the rest of it only tells the tracers. -/
theorem exists_computeStep (h : s.Underway) (hok : step s = .ok () s') :
    ∃ s₁ s₂, s₁ = { s with tracers := s₁.tracers } ∧ computeStep s₁ = .ok () s₂ ∧
      s' = { s₂ with time := s'.time, tracers := s'.tracers } := by
  rw [step, EStateM.discard_eq_ok] at hok
  obtain ⟨fired, hok⟩ := hok
  simp only [advance, attempt, EStateM.bind_eq_ok, EStateM.get_eq_ok, EStateM.lift_eq_ok,
    EStateM.modify_eq_ok, send] at hok
  obtain ⟨_, tried, ⟨_, s₀, hready, _, _, ⟨rfl, rfl⟩, tick, _, ⟨_, rfl⟩, _, _, ⟨rfl, rfl⟩, _, s₁,
    hsent, _, s₂, hcompute, htried⟩, _, s₃, hevents, hok⟩ := hok
  cases (ready_of_started h.started).symm.trans hready
  have hunderway : s₁.Underway := h.congr (by rw [hsent])
  obtain ⟨_, _, _, _, _, hnext⟩ := hunderway.computed hcompute
  have heventless : tried.events = [] := by
    rw [htried]
    exact hnext.eventless
  cases (processEvents_eventless heventless).symm.trans hevents
  obtain ⟨_, s₄, hpublish, hok⟩ := EStateM.bind_eq_ok.mp hok
  obtain ⟨_, rfl⟩ := EStateM.pure_eq_ok.mp hok
  refine ⟨s₁, s₂, by rw [hsent], hcompute, ?_⟩
  rw [publishSample_ok hpublish, htried]

/-- A step computes one iteration with the schedule of its dependencies. -/
theorem step_ok (h : s.Underway) (hok : step s = .ok () s') : ∃ tick g parts,
    s.diagram.dependencies s.iteration = .ok g ∧ Iterated s s' tick g.schedule parts ∧
      s'.Underway := by
  obtain ⟨s₁, s₂, hsent, hcompute, hs'⟩ := h.exists_computeStep hok
  have hunderway : s₁.Underway := h.congr (by rw [hsent])
  obtain ⟨tick, g, parts, hg, hiterated, hnext⟩ := hunderway.computed hcompute
  have hrest := hiterated.rest
  rw [hsent] at hg hiterated hrest
  refine ⟨tick, g, parts, hg, ?_, hnext.congr hs'⟩
  rw [hs']
  exact ⟨hiterated.next, hiterated.covers, hiterated.kept, hiterated.graph, hiterated.diagram,
    hiterated.fills, by rw [hrest]⟩

/-- Nothing asks for a stop, so steps are taken one after the other. -/
theorem takeSteps_succ_ok (h : s.Underway) {n : Nat} : takeSteps (n + 1) s = .ok () s' ↔
    ∃ s₁, step s = .ok () s₁ ∧ takeSteps n s₁ = .ok () s' := by
  have hsteps : takeSteps (n + 1) s = (step >>= fun _ => takeSteps n : Run α ω Unit) s := by
    rw [takeSteps, EStateM.bind_of_ok (EStateM.get_eq_ok.mpr ⟨rfl, rfl⟩), h.running]
    rfl
  rw [hsteps, EStateM.bind_eq_ok]
  constructor
  · rintro ⟨_, s₁, hstep, hrest⟩
    exact ⟨s₁, hstep, hrest⟩
  · rintro ⟨s₁, hstep, hrest⟩
    exact ⟨(), s₁, hstep, hrest⟩

/-- Where the dependencies have no cycle, a step succeeds if its iteration can be evaluated. -/
theorem step_total {d' : Diagram α} (h : s.Underway) (htick : s.nextTick = .ok tick)
    (hg : s.diagram.dependencies s.iteration = .ok g) (hacyclic : g.Acyclic)
    (heval : s.diagram.Evaluated s.inputs tick d') :
    ∃ s', step s = .ok () s' ∧
      ∀ p ∈ s.diagram.computedPorts, s'.diagram.history? p = d'.history? p := by
  let s₁ : Simulation α ω :=
    { s with tracers := s.tracers.send (.iteration s.iteration tick.time) }
  have hunderway : s₁.Underway := h.congr rfl
  obtain ⟨s₂, hcompute, hhistories⟩ := hunderway.computeStep_total htick hg hacyclic heval
  obtain ⟨_, _, _, _, _, hnext⟩ := hunderway.computed hcompute
  let tried : Simulation α ω := { s₂ with time := tick.time }
  have hattempt : attempt s = .ok () tried :=
    (EStateM.bind_of_ok (ready_of_started h.started)).trans
      (EStateM.bind_eq_ok.mpr ⟨s, s, rfl, EStateM.bind_eq_ok.mpr
        ⟨tick, s, EStateM.lift_eq_ok.mpr ⟨htick, rfl⟩, EStateM.bind_eq_ok.mpr
          ⟨s, s, rfl, EStateM.bind_eq_ok.mpr ⟨(), s₁, rfl, EStateM.bind_eq_ok.mpr
            ⟨(), s₂, hcompute, rfl⟩⟩⟩⟩⟩)
  obtain ⟨s', hpublish⟩ := publishSample_total tried
  have hadvance : advance s = .ok none s' :=
    EStateM.bind_eq_ok.mpr ⟨(), tried, hattempt, EStateM.bind_eq_ok.mpr
      ⟨none, tried, processEvents_eventless hnext.eventless,
        EStateM.bind_eq_ok.mpr ⟨(), s', hpublish, rfl⟩⟩⟩
  refine ⟨s', EStateM.discard_eq_ok.mpr ⟨none, hadvance⟩, fun p hp => ?_⟩
  rw [publishSample_ok hpublish]
  exact hhistories p hp

end Underway

/-! ### Beginnings -/

/-- What a model needs for a run to begin. -/
structure Startable (s : Simulation α ω) (clock : BlockId) : Prop where
  found : s.diagram.clock = .ok clock
  step : 0 < s.settings.step ∧ Scalar.bounded s.settings.step
  valid : s.diagram.validate = .ok ()
  tick : ∃ tick, ({ s with clock := some clock } : Simulation α ω).nextTick = .ok tick

theorem ensureClock_of_clock (hclock : s.diagram.clock = .ok clock) (step : α) :
    ensureClock step s = .ok clock s := by
  refine EStateM.bind_eq_ok.mpr ⟨s.diagram, s, rfl, ?_⟩
  rw [hclock]
  rfl

theorem startClock_eq_ok {startTime : α} : startClock clock s = .ok startTime s' ↔
    ∃ tick, ({ s with clock := some clock } : Simulation α ω).nextTick = .ok tick ∧
      startTime = tick.time ∧ s' = { s with
        clock := some clock, time := if s.iteration = 0 then tick.time else s.time } := by
  simp only [startClock, EStateM.bind_eq_ok, EStateM.modify_eq_ok, EStateM.get_eq_ok,
    EStateM.lift_eq_ok, EStateM.pure_eq_ok]
  constructor
  · rintro ⟨_, s₁, rfl, _, _, ⟨rfl, rfl⟩, tick, _, ⟨htick, rfl⟩, _, s₂, rfl, rfl, rfl⟩
    exact ⟨tick, htick, rfl, rfl⟩
  · rintro ⟨tick, htick, rfl, rfl⟩
    exact ⟨⟨⟩, _, rfl, _, _, ⟨rfl, rfl⟩, tick, _, ⟨htick, rfl⟩, ⟨⟩, _, rfl, rfl, rfl⟩

omit [Scalar α] in
theorem startTracers_total (startTime : α) (s : Simulation α ω) :
    ∃ s', startTracers startTime s = .ok () s' := by
  let s₁ : Simulation α ω :=
    { s with signalPorts := s.diagram.signalPorts, tracers := s.tracers.start }
  refine EStateM.bind_total rfl (EStateM.bind_total (a := s₁) rfl ?_)
  split
  · exact ⟨_, rfl⟩
  · exact ⟨s₁, rfl⟩

/-- With a clock in the model, making ready only looks whether a run can begin. -/
theorem prepare_ok (hclock : s.diagram.clock = .ok clock) (h : prepare s = .ok () s') :
    s.Startable clock ∧ s' = { s with
      clock := some clock, time := s'.time, signalPorts := s'.signalPorts, tracers := s'.tracers,
      pacer := s'.pacer, started := true } := by
  obtain ⟨hstep, found, s₁, time, s₂, s₃, s₄, hensure, hvalid, hstart, htracers, hpacer, hs'⟩ :=
    prepare_eq_ok.mp h
  cases (ensureClock_of_clock hclock _).symm.trans hensure
  obtain ⟨tick, htick, rfl, rfl⟩ := startClock_eq_ok.mp hstart
  refine ⟨⟨hclock, hstep, hvalid, tick, htick⟩, ?_⟩
  rw [hs', startPacer_ok hpacer, startTracers_ok htracers]

theorem Startable.prepare_total (h : s.Startable clock) : ∃ s', prepare s = .ok () s' := by
  obtain ⟨tick, htick⟩ := h.tick
  obtain ⟨s₁, htracers⟩ := startTracers_total tick.time _
  exact ⟨_, prepare_eq_ok.mpr ⟨h.step, clock, s, tick.time, _, s₁, _,
    ensureClock_of_clock h.found _, h.valid, startClock_eq_ok.mpr ⟨tick, htick, rfl, rfl⟩,
    htracers, rfl, rfl⟩⟩

/-! ### Beginning without events -/

/-- A simulation of a sound model in which no event can fire. -/
structure Eventless (s : Simulation α ω) : Prop where
  wellFormed : s.diagram.WellFormed
  ported : s.diagram.Ported
  fitted : s.diagram.Fitted
  events : s.events = []
  unmoved : s.firstStart = none

omit [Scalar α] in
/-- Everything is forgotten but the model and what the owner has set. -/
theorem Eventless.reset_total (h : s.Eventless) : ∃ s', reset s = .ok () s' ∧ s'.Fresh ∧
    s'.diagram = s.diagram.clearSignals ∧ s'.events = [] ∧ s' = { s with
      editor := s'.editor, iteration := 0, graph := none, scheduler := s'.scheduler,
      forcedStep := none, started := false, stop := false, events := s'.events } := by
  have hrestore : restoreStart s = .ok () s := by
    refine EStateM.bind_eq_ok.mpr ⟨s, s, rfl, ?_⟩
    rw [h.unmoved]
    rfl
  refine ⟨_, EStateM.bind_eq_ok.mpr ⟨(), s, hrestore, rfl⟩,
    ⟨s.diagram.unsampled_clearSignals, rfl, rfl, rfl⟩, rfl, ?_, rfl⟩
  change s.events.map _ = []
  rw [h.events]
  rfl

/-- Made ready before its first iteration, a simulation without events is underway. -/
theorem Fresh.underway (hfresh : s.Fresh) (hwellFormed : s.diagram.WellFormed)
    (hported : s.diagram.Ported) (hfitted : s.diagram.Fitted) (hevents : s.events = [])
    (hunforced : s.forcedStep = none) (hrunning : s.stop = false)
    (hclock : s.diagram.clock = .ok clock) (hprepare : prepare s = .ok () s') :
    s.Startable clock ∧ s'.Underway ∧ s'.diagram = s.diagram ∧ s'.inputs = s.inputs ∧
      s'.iteration = 0 := by
  obtain ⟨hstartable, hs'⟩ := prepare_ok hclock hprepare
  have haligned := hfresh.aligned hfitted (by rw [hevents]; exact fun _ hmem => by cases hmem)
    (.inl ⟨clock, hclock⟩)
  refine ⟨hstartable, ?_, ?_⟩
  · rw [hs']
    refine ⟨hwellFormed, hported, ⟨clock, hclock, rfl⟩,
      ⟨haligned.fitted, haligned.graph, haligned.kept⟩, haligned.sized, fun k hk => ?_, hevents,
      hunforced, hrunning, rfl⟩
    cases hfresh.iteration.symm.trans hk
  · rw [hs']
    exact ⟨rfl, rfl, hfresh.iteration⟩

/-- A beginning forgets everything and looks whether the run can start; then it is underway. -/
theorem Eventless.begun (h : s.Eventless) (hclock : s.diagram.clock = .ok clock)
    (hreset : reset s = .ok () s₁) (hprepare : prepare s₁ = .ok () s') :
    s₁.Startable clock ∧ s'.Underway ∧ s'.diagram = s.diagram.clearSignals ∧
      s'.inputs = s.inputs ∧ s'.iteration = 0 := by
  obtain ⟨s₂, hreset', hfresh, hdiagram, hevents, hs₁⟩ := h.reset_total
  cases hreset.symm.trans hreset'
  have hshape : s.diagram.SameShape s₁.diagram := by
    rw [hdiagram]
    exact s.diagram.sameShape_clearSignals
  have hclock₁ : s₁.diagram.clock = .ok clock := by
    rw [hdiagram, Diagram.clock_clearSignals, hclock]
  have hinputs : s₁.inputs = s.inputs := by rw [hs₁]
  rw [← hdiagram, ← hinputs]
  exact hfresh.underway (hshape.wellFormed h.wellFormed) (hshape.ported h.ported)
    (hshape.fitted h.fitted) hevents (by rw [hs₁]) (by rw [hs₁]) hclock₁ hprepare

end CausalBlocks.Simulation
