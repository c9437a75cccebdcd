import CausalBlocks.Proofs.Simulation.Insulation

/-!
# What a constant cannot influence

Two runs without events that differ in the value of one constant are followed side by side.
Unless the constant reaches the step of the clock, both count time in the same way and compute
the same groups in each iteration, so that they remain the same beyond what is downstream of the
constant. A clock that a run adds to its model is out of reach in any case.
-/

namespace CausalBlocks.Simulation

variable {α ω : Type} [Scalar α] {s s' t t' : Simulation α ω} {d : Diagram α} {c clock : BlockId}
  {cone : PortId → Prop} {n : Nat}

/-! ### The place in time -/

omit [Scalar α] in
/-- A constant is not the clock. -/
theorem Insulated.clockParameters (h : Insulated d c cone s t) (clock : BlockId) :
    (s.clockParameters clock).Refines (t.clockParameters clock) := by
  intro parameters hok
  obtain ⟨b, hb, hoperator⟩ := clockParameters_eq_ok.mp hok
  obtain ⟨b', hb', _, hrevalued, _⟩ := h.same.block clock b hb
  refine clockParameters_eq_ok.mpr ⟨b', hb', ?_⟩
  obtain hsame | ⟨⟨_, hconstant⟩, _⟩ := hrevalued
  · exact hsame.trans hoperator
  · cases hoperator.symm.trans hconstant

omit [Scalar α] in
/-- A step that is not forced and comes from beyond the cone is the same. -/
theorem Insulated.stepAfter (h : Insulated d c cone s t) (hcone : d.Cone c cone)
    (hclock : s.diagram.clock = .ok clock) (hspared : ¬cone (.input clock 0))
    (hforced : s.forcedStep = none) (hforced' : t.forcedStep = none) (announced : α)
    (iteration : Nat) :
    (s.stepAfter clock announced iteration).Refines (t.stepAfter clock announced iteration) := by
  obtain ⟨b, _, _, hb, _⟩ := Diagram.exists_block_of_clock hclock
  obtain ⟨b', hb', _⟩ := h.same.block clock b hb
  rw [stepAfter_unforced (by rw [hb]; rfl) hforced, stepAfter_unforced (by rw [hb']; rfl) hforced',
    h.same.frame.incoming]
  refine .ite (fun step hstep => ?_) (.refl _)
  cases hx : s.diagram.inputSample clock 0 iteration with
  | error failure =>
      rw [hx] at hstep
      cases hstep
  | ok x =>
      rw [hx] at hstep
      rw [h.same.inputSample (hcone.congr h.shape) hspared x hx]
      exact hstep

/-! ### Runs side by side -/

/-- Two simulations underway in the same iteration that are the same beyond a cone. -/
structure Abreast (d : Diagram α) (c : BlockId) (cone : PortId → Prop) (s t : Simulation α ω) :
    Prop where
  first : s.Underway
  second : t.Underway
  insulated : Insulated d c cone s t
  iteration : t.iteration = s.iteration

namespace Abreast

omit [Scalar α] in
/-- What is told to the tracers makes no difference. -/
theorem congr (h : Abreast d c cone s t)
    (hs : s' = { s with time := s'.time, tracers := s'.tracers })
    (ht : t' = { t with time := t'.time, tracers := t'.tracers }) : Abreast d c cone s' t' where
  first := h.first.congr hs
  second := h.second.congr ht
  insulated := by
    rw [hs, ht]
    exact ⟨h.insulated.shape, h.insulated.same, h.insulated.inputs⟩
  iteration := by
    rw [hs, ht]
    exact h.iteration

variable (h : Abreast d c cone s t) (hcone : d.Cone c cone) (hspared : d.SparesClock cone)
include h hcone hspared

theorem nextTick : s.nextTick.Refines t.nextTick := by
  obtain ⟨clock, hfound, hclock⟩ := h.first.clock
  obtain ⟨clock', hfound', hclock'⟩ := h.second.clock
  cases (h.insulated.same.clock.trans hfound).symm.trans hfound'
  obtain ⟨hinput, houtput⟩ := hspared clock (by rw [← hfound, h.insulated.shape.clock])
  exact nextTick_refines hclock hclock' h.iteration (h.insulated.clockParameters clock)
    (fun _ _ => h.insulated.same.same _ houtput)
    (h.insulated.stepAfter hcone hfound hinput h.first.unforced h.second.unforced)

theorem computeStep (hs : computeStep s = .ok () s') (ht : computeStep t = .ok () t') :
    Abreast d c cone s' t' := by
  obtain ⟨_, _, _, _, hiterated, hfirst⟩ := h.first.computed hs
  obtain ⟨_, _, _, _, hiterated', hsecond⟩ := h.second.computed ht
  obtain ⟨tick, g, s₁, htick, hg, hgroups, hs'⟩ := h.first.current.computes hs
  obtain ⟨tick', g', t₁, htick', hg', hgroups', ht'⟩ := h.second.current.computes ht
  -- the same groups at the same place in time
  cases (h.nextTick hcone hspared tick htick).symm.trans htick'
  rw [h.iteration] at hg'
  cases (h.insulated.same.dependencies g hg).symm.trans hg'
  have hsame : Insulated d c cone s₁ t₁ := by
    have hinsulates : Insulates d c cone (g.schedule.forM (computeGroup tick) : Run α ω Unit) :=
      .computeGroups hcone (h.insulated.shape.symm.wellFormed h.first.wellFormed)
        (h.insulated.shape.symm.fitted h.first.steady.fitted)
        ((h.insulated.shape.dependencies _).symm.trans hg)
    refine hinsulates _ _ s₁ t₁ ?_ hgroups hgroups'
    exact ⟨h.insulated.shape, h.insulated.same, h.insulated.inputs⟩
  refine ⟨hfirst, hsecond, ?_, ?_⟩
  · rw [hs', ht']
    exact ⟨hsame.shape, hsame.same, hsame.inputs⟩
  · rw [hiterated.rest, hiterated'.rest, h.iteration]

theorem step (hs : step s = .ok () s') (ht : step t = .ok () t') : Abreast d c cone s' t' := by
  obtain ⟨s₁, s₂, hs₁, hs, hs'⟩ := h.first.exists_computeStep hs
  obtain ⟨t₁, t₂, ht₁, ht, ht'⟩ := h.second.exists_computeStep ht
  have hstart : Abreast d c cone s₁ t₁ := h.congr (by rw [hs₁]) (by rw [ht₁])
  exact (hstart.computeStep hcone hspared hs ht).congr hs' ht'

/-- Step by step both runs remain the same beyond the cone. -/
theorem takeSteps (hs : takeSteps n s = .ok () s') (ht : takeSteps n t = .ok () t') :
    Abreast d c cone s' t' := by
  -- on the steps left
  induction n generalizing s t with
  | zero =>
      obtain ⟨_, rfl⟩ := EStateM.pure_eq_ok.mp hs
      obtain ⟨_, rfl⟩ := EStateM.pure_eq_ok.mp ht
      exact h
  | succ n ih =>
      obtain ⟨s₁, hs, hrest⟩ := h.first.takeSteps_succ_ok.mp hs
      obtain ⟨t₁, ht, hrest'⟩ := h.second.takeSteps_succ_ok.mp ht
      exact ih (h.step hcone hspared hs ht) hrest hrest'

end Abreast

/-! ### Beginning with a clock -/

/-- The clock of a run is the only one in its model, found there or added. -/
theorem clocked_of_ensureClock {s₁ : Simulation α ω} {step : α} (hd : s.diagram.WellFormed)
    (hensure : ensureClock step s = .ok clock s₁) (hvalid : s₁.diagram.validate = .ok ()) :
    s.diagram.Clocked step s₁.diagram clock ∧ s₁.diagram.clock = .ok clock := by
  obtain ⟨hfound, rfl⟩ | ⟨name, stem, hmissing, hstem, hadd⟩ := ensureClock_cases hensure
  · exact ⟨.found hfound, hfound⟩
  · obtain ⟨hwellFormed, _⟩ :=
      edit_keeps (Edit.wellFormed_keptByBuilding.addFixedRateClock _ _ _ _) hadd hd
    obtain ⟨id, hfound⟩ := clock_of_validate hvalid
    obtain ⟨editor, hedit, rfl⟩ := edit_eq_ok.mp hadd
    obtain ⟨rfl, hroot, hdiagram⟩ := Edit.addFixedRateClock_ok hedit
    change editor.diagram.WellFormed at hwellFormed
    change editor.diagram.clock = .ok id at hfound
    change s.diagram.Clocked step editor.diagram _ ∧ editor.diagram.clock = _
    rw [hdiagram] at hwellFormed hfound ⊢
    cases Diagram.clock_withClock hwellFormed hroot hfound
    exact ⟨.added hmissing hstem hroot, hfound⟩

/-- To make ready is to see to a clock and to make ready with it. -/
theorem exists_clocked (hd : s.diagram.WellFormed) (hok : prepare s = .ok () s') :
    ∃ s₁ clock, ensureClock s.settings.step s = .ok clock s₁ ∧
      s.diagram.Clocked s.settings.step s₁.diagram clock ∧ s₁.diagram.clock = .ok clock ∧
        prepare s₁ = .ok () s' := by
  obtain ⟨hstep, clock, s₁, startTime, s₂, s₃, s₄, hensure, hvalid, hstart, hrest⟩ :=
    prepare_eq_ok.mp hok
  obtain ⟨hclocked, hfound⟩ := clocked_of_ensureClock hd hensure hvalid
  have hsettings : s₁.settings = s.settings := by
    rw [(ensureClock_keeps Edit.wellFormed_keptByBuilding hd hensure).2]
  refine ⟨s₁, clock, hensure, hclocked, hfound, prepare_eq_ok.mpr ⟨?_, clock, s₁, startTime, s₂, s₃,
    s₄, ensureClock_of_clock hfound _, hvalid, hstart, hrest⟩⟩
  rwa [hsettings]

/-- A run begins with the model without samples, and with a clock; then it is underway. -/
theorem Eventless.underway (h : s.Eventless) (hok : begin s = .ok () s') :
    ∃ clock, s.diagram.clearSignals.Clocked s.settings.step s'.diagram clock ∧
      s'.diagram.clock = .ok clock ∧ s'.Underway ∧ s'.inputs = s.inputs ∧ s'.iteration = 0 := by
  obtain ⟨_, s₁, hreset, hprepare⟩ := EStateM.bind_eq_ok.mp hok
  obtain ⟨_, hsame, hfresh, hcleared, hevents, hs₁⟩ := h.reset_total
  cases hreset.symm.trans hsame
  have hshape : s.diagram.SameShape s₁.diagram := hcleared ▸ s.diagram.sameShape_clearSignals
  obtain ⟨s₂, clock, hensure, hclocked, hfound, hprepare⟩ :=
    exists_clocked (hshape.wellFormed h.wellFormed) hprepare
  -- whatever building keeps is kept when a clock is added
  obtain ⟨hwellFormed, hs₂⟩ := ensureClock_keeps Edit.wellFormed_keptByBuilding
    (hshape.wellFormed h.wellFormed) hensure
  obtain ⟨hported, _⟩ := ensureClock_keeps Block.ported_formal.lasting.keptByBuilding
    (hshape.ported h.ported) hensure
  obtain ⟨hfitted, _⟩ := ensureClock_keeps Block.fitted_lasting.keptByBuilding
    (hshape.fitted h.fitted) hensure
  obtain ⟨hunsampled, _⟩ := ensureClock_keeps Block.unsampled_lasting.keptByBuilding
    hfresh.unsampled hensure
  have hfresh₂ : s₂.Fresh := by
    rw [hs₂]
    exact ⟨hunsampled, hfresh.iteration, hfresh.graph, hfresh.kept⟩
  obtain ⟨_, hunderway, hdiagram, hinputs, hiteration⟩ := hfresh₂.underway hwellFormed hported
    hfitted (by rw [hs₂, hevents]) (by rw [hs₂, hs₁]) (by rw [hs₂, hs₁]) hfound hprepare
  refine ⟨clock, ?_, ?_, hunderway, ?_, hiteration⟩
  · rw [hdiagram, ← hcleared]
    have hsettings : s.settings = s₁.settings := by rw [hs₁]
    rwa [hsettings]
  · rwa [hdiagram]
  · rw [hinputs, hs₂, hs₁]

omit [Scalar α] in
theorem Eventless.setConstant {path : String} {value : α} (h : s.Eventless)
    (hset : edit (.setConstant path value) s = .ok () t) : t.Eventless := by
  obtain ⟨hwellFormed, ht⟩ :=
    edit_keeps (Edit.wellFormed_keptByTuning.setConstant path value) hset h.wellFormed
  obtain ⟨hported, _⟩ :=
    edit_keeps (Block.ported_formal.keptByTuning.setConstant path value) hset h.ported
  obtain ⟨hfitted, _⟩ := edit_keeps (Edit.fitted_keptByTuning.setConstant path value) hset h.fitted
  exact ⟨hwellFormed, hported, hfitted, by rw [ht]; exact h.events, by rw [ht]; exact h.unmoved⟩

/-! ### Runs with another constant -/

end CausalBlocks.Simulation
