import CausalBlocks.Proofs.Simulation.Crossing
import CausalBlocks.Simulation.Run

/-!
# Reachable simulations

A simulation begins with a model and callbacks that anyone may hand over. Turns lead
on from there, and between turns its owner may change how it runs. All simulations
that are reached so are aligned.
-/

namespace CausalBlocks.Simulation

variable {α ω : Type} {s s' s'' : Simulation α ω}

/-- What the owner hands over: blocks with the outputs of their operators, and
callbacks that keep it so. -/
structure Lawful (s : Simulation α ω) : Prop where
  fitted : s.diagram.Fitted
  callbacks : ∀ event ∈ s.events, Callback.Fits event.callback

/-- What the owner may change between two turns. The model is not among it. -/
structure Configured (s s' : Simulation α ω) : Prop where
  diagram : s'.diagram = s.diagram
  events : ∃ more, s'.events = s.events ++ more ∧ ∀ event ∈ more, Callback.Fits event.callback
  started : s'.started = true → s.started = true
  rest : s' = { s with
    editor := s'.editor, settings := s'.settings, locator := s'.locator, events := s'.events,
    condition := s'.condition, inputs := s'.inputs, tracers := s'.tracers, pacer := s'.pacer,
    stop := s'.stop, started := s'.started, world := s'.world }

/-- Changes that concern neither the model nor the events. -/
theorem Configured.of_editor {s₁ : Simulation α ω} (hdiagram : s₁.diagram = s.diagram)
    (hrest : s₁ = { s with
      editor := s₁.editor, inputs := s₁.inputs, tracers := s₁.tracers, pacer := s₁.pacer }) :
    Configured s s₁ where
  diagram := hdiagram
  events := ⟨[], by rw [hrest, List.append_nil], fun _ hmem => by cases hmem⟩
  started h := by rwa [hrest] at h
  rest := by rw [hrest]

theorem Configured.trans (h : Configured s s') (h' : Configured s' s'') : Configured s s'' where
  diagram := h'.diagram.trans h.diagram
  events := by
    obtain ⟨more, hmore, hfits⟩ := h.events
    obtain ⟨later, hlater, hfits'⟩ := h'.events
    refine ⟨more ++ later, by rw [hlater, hmore, List.append_assoc], fun event hevent => ?_⟩
    exact (List.mem_append.mp hevent).elim (hfits event) (hfits' event)
  started hstarted := h.started (h'.started hstarted)
  rest := by rw [h'.rest, h.rest]

theorem Aligned.configured (hs : s.Aligned) (h : Configured s s') : s'.Aligned where
  fitted := by
    rw [h.diagram]
    exact hs.fitted
  graph g hg := by
    rw [h.rest] at hg
    rw [h.diagram]
    exact hs.graph g hg
  kept groups hgroups := by
    rw [h.rest] at hgroups
    rw [h.diagram]
    exact hs.kept groups hgroups
  callbacks event hevent := by
    obtain ⟨more, hmore, hfits⟩ := h.events
    rw [hmore] at hevent
    exact (List.mem_append.mp hevent).elim (hs.callbacks event) (hfits event)
  sized p history hp := by
    rw [h.diagram] at hp ⊢
    rw [h.rest]
    exact hs.sized p history hp
  clocked := by
    rw [h.diagram]
    -- a simulation that had not started has not been started by the change
    refine hs.clocked.imp_right fun ⟨hfresh, hstopped⟩ => ⟨?_, ?_⟩
    · refine ⟨h.diagram ▸ hfresh.unsampled, ?_, ?_, ?_⟩ <;> rw [h.rest]
      · exact hfresh.iteration
      · exact hfresh.graph
      · exact hfresh.kept
    · exact Bool.eq_false_iff.mpr fun hstarted =>
        Bool.false_ne_true (hstopped.symm.trans (h.started hstarted))

/-! ### Making ready -/

variable [Scalar α]

/-- The model has a clock, or it has none and gets one. -/
theorem ensureClock_cases {step : α} {id : BlockId} (h : ensureClock step s = .ok id s') :
    s.diagram.clock = .ok id ∧ s' = s ∨ ∃ name stem,
      s.diagram.clock = .error (.missingClock name) ∧
      s.diagram.uniqueName s.diagram.root "clock" false = .ok stem ∧
      edit (.addFixedRateClock s.diagram.root stem step 0) s = .ok id s' := by
  simp only [ensureClock, EStateM.bind_eq_ok, model_eq_ok] at h
  obtain ⟨_, s, ⟨rfl, rfl⟩, h⟩ := h
  cases hclock : s.diagram.clock with
  | ok clock =>
      rw [hclock] at h
      obtain ⟨rfl, rfl⟩ := EStateM.pure_eq_ok.mp h
      exact .inl ⟨rfl, rfl⟩
  | error failure =>
      rw [hclock] at h
      cases failure with
      | missingClock name =>
          simp only [EStateM.bind_eq_ok, EStateM.lift_eq_ok] at h
          obtain ⟨stem, s, ⟨hstem, rfl⟩, hadd⟩ := h
          exact .inr ⟨name, stem, rfl, hstem, hadd⟩
      | _ => cases EStateM.throw_eq_ok.mp h

theorem ensureClock_keeps {P : Diagram α → Prop} (hP : Edit.KeptByBuilding P) {step : α}
    {id : BlockId} (hs : P s.diagram) (h : ensureClock step s = .ok id s') :
    P s'.diagram ∧ s' = { s with editor := s'.editor } := by
  obtain ⟨_, rfl⟩ | ⟨_, _, _, _, hadd⟩ := ensureClock_cases h
  · exact ⟨hs, rfl⟩
  · exact edit_keeps (hP.addFixedRateClock _ _ _ _) hadd hs

theorem ensureClock_ok {step : α} {id : BlockId} (hs : s.Aligned)
    (h : ensureClock step s = .ok id s') :
    s' = s ∨ s.Fresh ∧ s.started = false ∧ s'.diagram.Fitted ∧ s'.diagram.Unsampled ∧
      s' = { s with editor := s'.editor } := by
  obtain ⟨_, rfl⟩ | ⟨_, _, hmissing, _, hadd⟩ := ensureClock_cases h
  · exact .inl rfl
  · -- without a clock nothing has been computed yet, so a new block comes in time
    obtain ⟨hfresh, hstopped⟩ : s.Fresh ∧ s.started = false := by
      refine hs.clocked.resolve_left fun ⟨clock, hok⟩ => ?_
      cases hmissing.symm.trans hok
    obtain ⟨hunsampled, hrest⟩ := edit_keeps
      (Block.unsampled_lasting.keptByBuilding.addFixedRateClock _ _ _ _) hadd hfresh.unsampled
    obtain ⟨hfitted, _⟩ := edit_keeps
      (Block.fitted_lasting.keptByBuilding.addFixedRateClock _ _ _ _) hadd hs.fitted
    exact .inr ⟨hfresh, hstopped, hfitted, hunsampled, hrest⟩

theorem startClock_ok {clock : BlockId} {startTime : α}
    (h : startClock clock s = .ok startTime s') :
    s' = { s with clock := s'.clock, time := s'.time } := by
  simp only [startClock, EStateM.bind_eq_ok, EStateM.modify_eq_ok, EStateM.get_eq_ok,
    EStateM.lift_eq_ok, EStateM.pure_eq_ok] at h
  obtain ⟨_, s₁, rfl, _, _, ⟨rfl, rfl⟩, tick, _, ⟨_, rfl⟩, _, s₂, rfl, rfl, rfl⟩ := h
  rfl

omit [Scalar α] in
theorem startTracers_ok {startTime : α} (h : startTracers startTime s = .ok () s') :
    s' = { s with signalPorts := s'.signalPorts, tracers := s'.tracers } := by
  simp only [startTracers, EStateM.bind_eq_ok, EStateM.modify_eq_ok, EStateM.get_eq_ok,
    EStateM.ite_eq_ok, EStateM.pure_eq_ok, send] at h
  obtain ⟨_, s₁, rfl, _, _, ⟨rfl, rfl⟩, ⟨_, rfl⟩ | ⟨_, _, rfl⟩⟩ := h <;> rfl

theorem startPacer_ok {startTime : α} (h : startPacer startTime s = .ok () s') :
    s' = { s with pacer := s'.pacer } := by
  rw [startPacer, EStateM.modify_eq_ok] at h
  subst h
  cases s.settings.realTime <;> rfl

omit [Scalar α] in
theorem clock_of_validate {d : Diagram α} (h : d.validate = .ok ()) : ∃ id, d.clock = .ok id := by
  obtain ⟨id, hclock, _⟩ := Except.bind_eq_ok.mp h
  exact ⟨id, hclock⟩

/-- Making ready step by step. A clock comes first, since a model without one is not valid. -/
theorem prepare_eq_ok : prepare s = .ok () s' ↔
    (0 < s.settings.step ∧ Scalar.bounded s.settings.step) ∧
    ∃ clock s₁ startTime s₂ s₃ s₄, ensureClock s.settings.step s = .ok clock s₁ ∧
      s₁.diagram.validate = .ok () ∧ startClock clock s₁ = .ok startTime s₂ ∧
      startTracers startTime s₂ = .ok () s₃ ∧ startPacer startTime s₃ = .ok () s₄ ∧
      s' = { s₄ with started := true } := by
  simp only [prepare, EStateM.bind_eq_ok, EStateM.get_eq_ok, EStateM.ite_eq_ok,
    EStateM.throw_eq_ok, model_eq_ok, EStateM.lift_eq_ok, EStateM.modify_eq_ok]
  constructor
  · rintro ⟨_, s, ⟨rfl, rfl⟩, ⟨hstep, h⟩ | ⟨_, _, _, hfalse, _⟩⟩
    · obtain ⟨clock, s₁, hensure, _, s₁, ⟨rfl, rfl⟩, _, s₁, ⟨hvalid, rfl⟩, startTime, s₂, hclock,
        _, s₃, htracers, _, s₄, hpacer, hs'⟩ := h
      exact ⟨hstep, clock, s₁, startTime, s₂, s₃, s₄, hensure, hvalid, hclock, htracers, hpacer,
        hs'⟩
    · cases hfalse
  · rintro ⟨hstep, clock, s₁, startTime, s₂, s₃, s₄, hensure, hvalid, hclock, htracers, hpacer, hs'⟩
    exact ⟨s, s, ⟨rfl, rfl⟩, .inl ⟨hstep, clock, s₁, hensure, s₁.diagram, s₁, ⟨rfl, rfl⟩, (), s₁,
      ⟨hvalid, rfl⟩, startTime, s₂, hclock, (), s₃, htracers, (), s₄, hpacer, hs'⟩⟩

/-- Once there is a clock, the rest of making ready leaves the model alone. -/
theorem prepare_rest (h : prepare s = .ok () s') :
    ∃ clock s₁, ensureClock s.settings.step s = .ok clock s₁ ∧ s₁.diagram.validate = .ok () ∧
      s' = { s₁ with
        clock := s'.clock, time := s'.time, signalPorts := s'.signalPorts,
        tracers := s'.tracers, pacer := s'.pacer, started := s'.started } := by
  obtain ⟨_, clock, s₁, _, _, _, _, hensure, hvalid, hclock, htracers, hpacer, hs'⟩ :=
    prepare_eq_ok.mp h
  refine ⟨clock, s₁, hensure, hvalid, ?_⟩
  rw [hs', startPacer_ok hpacer, startTracers_ok htracers, startClock_ok hclock]

/-- What has started is ready. -/
theorem ready_cases (h : ready s = .ok () s') :
    s.started = true ∧ s' = s ∨ s.started = false ∧ prepare s = .ok () s' := by
  simp only [ready, EStateM.bind_eq_ok, EStateM.get_eq_ok, EStateM.ite_eq_ok,
    EStateM.pure_eq_ok] at h
  obtain ⟨_, s, ⟨rfl, rfl⟩, ⟨hstarted, _, rfl⟩ | ⟨hstopped, hprepare⟩⟩ := h
  · exact .inl ⟨hstarted, rfl⟩
  · exact .inr ⟨Bool.eq_false_iff.mpr hstopped, hprepare⟩

/-- Making ready does not touch the samples. It may add a clock while there are none. -/
structure Prepared (s s' : Simulation α ω) : Prop where
  aligned : s'.Aligned
  clocked : ∃ id, s'.diagram.clock = .ok id
  diagram : s'.diagram = s.diagram ∨ s.iteration = 0
  iteration : s'.iteration = s.iteration
  events : s'.events = s.events

theorem Aligned.prepare (hs : s.Aligned) (h : prepare s = .ok () s') : Prepared s s' := by
  obtain ⟨clock, s₁, hensure, hvalid, hrest⟩ := prepare_rest h
  have hclocked := clock_of_validate hvalid
  have haligned : s₁.Aligned ∧ (s₁.diagram = s.diagram ∨ s.iteration = 0) ∧
      s₁.iteration = s.iteration ∧ s₁.events = s.events := by
    rcases ensureClock_ok hs hensure with rfl | ⟨hfresh, _, hfitted, hunsampled, heditor⟩
    · exact ⟨hs, .inl rfl, rfl, rfl⟩
    · have hfresh₁ : s₁.Fresh := by
        refine ⟨hunsampled, ?_, ?_, ?_⟩ <;> rw [heditor]
        · exact hfresh.iteration
        · exact hfresh.graph
        · exact hfresh.kept
      have hcallbacks : ∀ event ∈ s₁.events, Callback.Fits event.callback := by
        rw [heditor]
        exact hs.callbacks
      exact ⟨hfresh₁.aligned hfitted hcallbacks (.inl hclocked), .inr hfresh.iteration,
        by rw [heditor], by rw [heditor]⟩
  obtain ⟨haligned, hdiagram, hiteration, hevents⟩ := haligned
  rw [hrest]
  exact ⟨⟨⟨haligned.fitted, haligned.graph, haligned.kept⟩, haligned.callbacks, haligned.sized,
    .inl hclocked⟩, hclocked, hdiagram, hiteration, hevents⟩

theorem Aligned.ready (hs : s.Aligned) (h : ready s = .ok () s') : Prepared s s' := by
  obtain ⟨hstarted, rfl⟩ | ⟨_, hprepare⟩ := ready_cases h
  · refine ⟨hs, hs.clocked.resolve_right fun hfresh => ?_, .inl rfl, rfl, rfl⟩
    rw [hfresh.2] at hstarted
    cases hstarted
  · exact hs.prepare hprepare

omit [Scalar α] in
theorem restoreStart_ok (hs : s.Lawful) (h : restoreStart s = .ok () s') :
    s'.Lawful := by
  simp only [restoreStart, EStateM.bind_eq_ok, EStateM.get_eq_ok] at h
  obtain ⟨_, s, ⟨rfl, rfl⟩, h⟩ := h
  cases hstart : s.firstStart with
  | none =>
      rw [hstart] at h
      obtain ⟨_, rfl⟩ := EStateM.pure_eq_ok.mp h
      exact hs
  | some start =>
      rw [hstart] at h
      simp only [EStateM.bind_eq_ok, EStateM.modify_eq_ok] at h
      obtain ⟨_, s₁, rfl, hedit⟩ := h
      obtain ⟨hfitted, hrest⟩ := edit_keeps (Edit.fitted_keptByTuning.setClockStart start) hedit hs.fitted
      refine ⟨hfitted, ?_⟩
      rw [hrest]
      exact hs.callbacks

omit [Scalar α] in
/-- After everything has been forgotten nothing is left of an earlier run. -/
theorem Lawful.reset (hs : s.Lawful) (h : reset s = .ok () s') :
    s'.Aligned ∧ s'.iteration = 0 := by
  simp only [Simulation.reset, EStateM.bind_eq_ok, EStateM.modify_eq_ok] at h
  obtain ⟨_, s₁, hrestore, _, s₂, hclear, rfl⟩ := h
  have hs₁ := restoreStart_ok hs hrestore
  obtain ⟨editor, hedit, rfl⟩ := edit_eq_ok.mp hclear
  cases hedit
  refine ⟨Fresh.aligned ⟨s₁.diagram.unsampled_clearSignals, rfl, rfl, rfl⟩
    (s₁.diagram.sameShape_clearSignals.fitted hs₁.fitted) (fun event hevent => ?_) (.inr rfl), rfl⟩
  obtain ⟨old, hold, rfl⟩ := List.mem_map.mp hevent
  exact hs₁.callbacks old hold

theorem Lawful.begin (hs : s.Lawful) (h : begin s = .ok () s') :
    s'.Aligned ∧ s'.iteration = 0 := by
  rw [Simulation.begin, EStateM.bind_eq_ok] at h
  obtain ⟨_, s₁, hreset, hprepare⟩ := h
  obtain ⟨haligned, hiteration⟩ := hs.reset hreset
  have hprepared := haligned.prepare hprepare
  exact ⟨hprepared.aligned, hprepared.iteration.trans hiteration⟩

/-! ### Turns -/

theorem attempt_ok (hs : s.Aligned) (h : attempt s = .ok () s') :
    ∃ s₀ tick groups parts, ready s = .ok () s₀ ∧ Prepared s s₀ ∧
      Iterated s₀ s' tick groups parts ∧ s'.time = tick.time := by
  simp only [attempt, EStateM.bind_eq_ok, EStateM.get_eq_ok, EStateM.lift_eq_ok,
    EStateM.modify_eq_ok, send] at h
  obtain ⟨_, s₀, hready, _, _, ⟨rfl, rfl⟩, tick, _, ⟨htick, rfl⟩, _, _, ⟨rfl, rfl⟩, _, s₁, hsend,
    _, s₂, hcompute, rfl⟩ := h
  have hprepared := hs.ready hready
  have hsteady : s₁.Steady := by
    rw [hsend]
    exact ⟨hprepared.aligned.fitted, hprepared.aligned.graph, hprepared.aligned.kept⟩
  obtain ⟨tick', groups, parts, hiterated⟩ := hsteady.computeStep hcompute
  rw [hsend] at hiterated
  -- the tick that was announced is the one that is computed
  cases htick.symm.trans hiterated.next
  refine ⟨_, tick, groups, parts, hready, hprepared, ?_, rfl⟩
  exact ⟨htick, hiterated.covers, hiterated.kept, hiterated.graph, hiterated.diagram,
    hiterated.fills, by rw [hiterated.rest]⟩

theorem Aligned.attempt (hs : s.Aligned) (h : attempt s = .ok () s') :
    s'.Aligned ∧ s'.events = s.events := by
  obtain ⟨s₀, tick, groups, parts, _, hprepared, hiterated, _⟩ := attempt_ok hs h
  obtain ⟨clock, hclock⟩ := hprepared.clocked
  refine ⟨hprepared.aligned.iterated hclock hiterated, ?_⟩
  rw [hiterated.rest]
  exact hprepared.events

/-- A turn attempts an iteration and looks at the events. Either none fires and the
iteration stays, or one that was armed fires. -/
theorem advance_ok {fired : Option Nat} (hs : s.Aligned) (h : advance s = .ok fired s') :
    ∃ tried events, attempt s = .ok () tried ∧ Rearming tried.diagram s.events events ∧
      (fired = none ∧ s' = { tried with events, tracers := s'.tracers } ∨
        ∃ i event, fired = some i ∧ s.events[i]? = some event ∧ event.fired = false ∧
          Fired { tried with events } s' i) := by
  simp only [advance, EStateM.bind_eq_ok, EStateM.ite_eq_ok, EStateM.pure_eq_ok] at h
  obtain ⟨_, tried, hattempt, answer, s₁, hprocess, h⟩ := h
  obtain ⟨htried, hevents⟩ := hs.attempt hattempt
  obtain ⟨s₂, hs₂, hrearming, hends⟩ := processEvents_ok htried.toSteady htried.callbacks hprocess
  rw [hevents] at hrearming
  refine ⟨tried, s₂.events, hattempt, hrearming, ?_⟩
  rcases hends with ⟨rfl, hsame⟩ | ⟨i, event, rfl, hevent, harmed, hfired⟩
  · rcases h with ⟨_, _, s₃, hpublish, rfl, rfl⟩ | ⟨hsome, _⟩
    · refine .inl ⟨rfl, ?_⟩
      rw [publishSample_ok hpublish, hsame, hs₂]
    · exact absurd rfl hsome
  · rcases h with ⟨hnone, _⟩ | ⟨_, rfl, rfl⟩
    · cases hnone
    · rw [hevents] at hevent
      rw [hs₂] at hfired
      exact .inr ⟨i, event, rfl, hevent, harmed, hfired⟩

omit [Scalar α] in
theorem Fired.aligned {i : Nat} (h : Fired s s' i)
    (hcallbacks : ∀ event ∈ s.events, Callback.Fits event.callback) : s'.Aligned := by
  refine h.fresh.aligned h.fitted ?_ (.inl h.clocked)
  rw [h.events]
  exact forall_callback_modify hcallbacks

theorem Aligned.advance {fired : Option Nat} (hs : s.Aligned) (h : advance s = .ok fired s') :
    s'.Aligned := by
  obtain ⟨tried, events, hattempt, hrearming, hends⟩ := advance_ok hs h
  obtain ⟨htried, _⟩ := hs.attempt hattempt
  have hcallbacks := hrearming.callbacks hs.callbacks
  rcases hends with ⟨_, hs'⟩ | ⟨i, _, _, _, _, hfired⟩
  · rw [hs']
    refine ⟨⟨htried.fitted, htried.graph, htried.kept⟩, hcallbacks, htried.sized, ?_⟩
    exact htried.clocked.imp_right fun ⟨hfresh, hstopped⟩ =>
      ⟨⟨hfresh.unsampled, hfresh.iteration, hfresh.graph, hfresh.kept⟩, hstopped⟩
  · exact hfired.aligned hcallbacks

/-! ### Between turns -/

theorem pace_configured (h : pace s = .ok () s') : Configured s s' := by
  simp only [pace, EStateM.bind_eq_ok, EStateM.get_eq_ok] at h
  obtain ⟨_, s, ⟨rfl, rfl⟩, h⟩ := h
  cases hpacer : s.pacer with
  | none =>
      rw [hpacer] at h
      obtain ⟨_, rfl⟩ := EStateM.pure_eq_ok.mp h
      exact .of_editor rfl rfl
  | some pacer =>
      rw [hpacer] at h
      simp only [EStateM.bind_eq_ok, EStateM.lift_eq_ok, EStateM.ite_eq_ok,
        EStateM.modify_eq_ok] at h
      obtain ⟨next, _, ⟨_, rfl⟩, waited, _, ⟨_, rfl⟩, ⟨_, _, s₁, hreport, rfl⟩ | ⟨_, rfl⟩⟩ := h
      · have hrecorded := report_ok hreport
        exact .of_editor hrecorded.diagram (by rw [hrecorded.rest])
      · exact .of_editor rfl rfl

theorem dismiss_configured (s : Simulation α ω) : Configured s s.dismiss where
  diagram := rfl
  events := ⟨[], (List.append_nil _).symm, fun _ hmem => by cases hmem⟩
  started h := by cases h
  rest := rfl

theorem concluding_ok {β : Type} {action : Run α ω β} {x : β}
    (h : concluding action s = .ok x s') : ∃ s₁, action s = .ok x s₁ ∧ s' = s₁.dismiss := by
  rw [concluding] at h
  split at h
  next x s₁ haction =>
    cases h
    exact ⟨s₁, haction, rfl⟩
  next failure s₁ _ =>
    obtain ⟨_, _, _, hthrow⟩ := EStateM.bind_eq_ok.mp h
    cases EStateM.throw_eq_ok.mp hthrow

omit [Scalar α] in
theorem setInput_configured {name : String} {value : α}
    (h : setInput name value s = .ok () s') : Configured s s' := by
  simp only [setInput, EStateM.bind_eq_ok, model_eq_ok, EStateM.lift_eq_ok,
    EStateM.ite_eq_ok, EStateM.throw_eq_ok, EStateM.modify_eq_ok] at h
  obtain ⟨_, _, ⟨rfl, rfl⟩, root, _, ⟨_, rfl⟩, ⟨_, _, _, hfalse, _⟩ | ⟨_, rfl⟩⟩ := h
  · cases hfalse
  · exact .of_editor rfl rfl

theorem addTracer_configured {interval : Option (α × Interpolation)}
    (h : addTracer interval s = .ok () s') : Configured s s' := by
  simp only [addTracer, EStateM.bind_eq_ok, EStateM.get_eq_ok, EStateM.lift_eq_ok,
    EStateM.modify_eq_ok] at h
  obtain ⟨_, s, ⟨rfl, rfl⟩, tracers, s, ⟨_, rfl⟩, _, s, ⟨rfl, rfl⟩, _, s₁, hreports, rfl⟩ := h
  have hrecorded : Recorded s s₁ [] :=
    EStateM.forM_ok (P := fun _ s₁ => Recorded s s₁ [])
      (fun _ _ _ _ hbefore hreport => hbefore.trans (report_ok hreport)) (.refl s) hreports
  exact .of_editor hrecorded.diagram (by rw [hrecorded.rest])

/-! ### What turns lead to -/

/-- The simulations that turns lead to: from one just made, or from the beginning of a
run. -/
inductive Reachable : Simulation α ω → Prop
  | made {s : Simulation α ω} (h : s.Lawful) (hfresh : s.Fresh) (hstopped : s.started = false) :
      Reachable s
  | begun {s s' : Simulation α ω} (h : s.Lawful) (hok : begin s = .ok () s') : Reachable s'
  | advanced {s s' : Simulation α ω} {fired : Option Nat} (h : Reachable s)
      (hok : advance s = .ok fired s') : Reachable s'
  | configured {s s' : Simulation α ω} (h : Reachable s) (hchange : Configured s s') :
      Reachable s'

/-- A simulation of a model without samples is reachable. -/
theorem Reachable.make {editor : Editor α} (settings : Settings α) (world : ω)
    (hfitted : editor.diagram.Fitted) (hunsampled : editor.diagram.Unsampled) :
    (make editor settings world).Reachable :=
  .made ⟨hfitted, fun _ hmem => by cases hmem⟩ ⟨hunsampled, rfl, rfl, rfl⟩ rfl

theorem Reachable.aligned (h : s.Reachable) : s.Aligned := by
  -- each way to go on keeps the simulation aligned
  induction h with
  | made h hfresh hstopped => exact hfresh.aligned h.fitted h.callbacks (.inr hstopped)
  | begun h hok => exact (h.begin hok).1
  | advanced _ hok ih => exact ih.advance hok
  | configured _ hchange ih => exact ih.configured hchange

/-- What turns lead to may be begun again. -/
theorem Reachable.begin (h : s.Reachable) (hok : begin s = .ok () s') : s'.Reachable :=
  .begun ⟨h.aligned.fitted, h.aligned.callbacks⟩ hok

end CausalBlocks.Simulation
