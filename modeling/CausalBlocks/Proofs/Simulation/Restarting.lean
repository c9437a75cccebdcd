import CausalBlocks.Proofs.Simulation.Course
import CausalBlocks.Proofs.Simulation.Inspection
import CausalBlocks.Proofs.Simulation.Tracking

/-!
# Starting anew

When an event fires the clock starts anew at the time that was located. As long as the callback
leaves the model alone, only that start differs afterwards: the iterations that follow count
their times from it.
-/

namespace CausalBlocks

variable {α ω : Type}

/-- A callback that leaves the model as it is. -/
def Callback.Idle (callback : Callback α ω) : Prop := ∀ time scene u scene',
  callback time scene = .ok u scene' → scene'.editor.diagram = scene.editor.diagram

namespace Simulation

variable {s s' s₀ : Simulation α ω} {tick : Tick α} {start : α}

/-! ### When the clock starts -/

/-- The clock of the model is the one that the run goes by, and it starts at a time. -/
def StartsAt (s : Simulation α ω) (start : α) : Prop := ∃ clock b step,
  s.diagram.clock = .ok clock ∧ s.clock = some clock ∧ s.diagram.block? clock = some b ∧
    b.operator = .clock start step

theorem StartsAt.congr (h : s.StartsAt start) (hdiagram : s'.diagram = s.diagram)
    (hclock : s'.clock = s.clock) : s'.StartsAt start := by
  rw [StartsAt, hdiagram, hclock]
  exact h

theorem StartsAt.configured (h : s.StartsAt start) (hchange : Configured s s') :
    s'.StartsAt start := h.congr hchange.diagram (by rw [hchange.rest])

theorem StartsAt.sameShape (h : s.StartsAt start) (hshape : s.diagram.SameShape s'.diagram)
    (hclock : s'.clock = s.clock) : s'.StartsAt start := by
  obtain ⟨clock, b, step, hfound, hrun, hb, hoperator⟩ := h
  obtain ⟨b', hb', hsame, _⟩ := hshape.symm.block? hb
  refine ⟨clock, b', step, ?_, hclock.trans hrun, hb', hsame.trans hoperator⟩
  rw [hshape.clock, hfound]

variable [Scalar α]

/-- Making ready leaves a model alone that has a clock. -/
theorem diagram_of_ready {clock : BlockId} (hclock : s.diagram.clock = .ok clock)
    (h : ready s = .ok () s₀) :
    s₀.diagram = s.diagram ∧ (s₀.clock = s.clock ∨ s₀.clock = some clock) := by
  obtain ⟨_, rfl⟩ | ⟨_, hprepare⟩ := ready_cases h
  · exact ⟨rfl, .inl rfl⟩
  · rw [(prepare_ok hclock hprepare).2]
    exact ⟨rfl, .inr rfl⟩

theorem StartsAt.ready (h : s.StartsAt start) (hready : Simulation.ready s = .ok () s₀) :
    s₀.StartsAt start := by
  obtain ⟨clock, b, step, hfound, hrun, hb, hoperator⟩ := h
  obtain ⟨hdiagram, hclock⟩ := diagram_of_ready hfound hready
  have hrun₀ : s₀.clock = some clock := by
    rcases hclock with hsame | hclock
    · rw [hsame, hrun]
    · exact hclock
  rw [← hdiagram] at hfound hb
  exact ⟨clock, b, step, hfound, hrun₀, hb, hoperator⟩

/-- Iterations count from the start of the clock. -/
theorem StartsAt.nextTick (h : s.StartsAt start) (htick : s.nextTick = .ok tick) :
    tick.start = start ∧ (s.iteration = 0 → tick.time = start) := by
  obtain ⟨clock, b, step, _, hrun, hb, hoperator⟩ := h
  obtain ⟨_, hclock, htick⟩ := Except.bind_eq_ok.mp htick
  rw [clockOf, hrun] at hclock
  cases hclock
  obtain ⟨⟨_, _⟩, hparameters, htick⟩ := Except.bind_eq_ok.mp htick
  obtain ⟨_, hb', hoperator'⟩ := clockParameters_eq_ok.mp hparameters
  cases hb.symm.trans hb'
  cases hoperator.symm.trans hoperator'
  cases hiteration : s.iteration with
  | zero =>
      rw [hiteration] at htick
      cases htick
      exact ⟨rfl, fun _ => rfl⟩
  | succ before =>
      rw [hiteration] at htick
      refine ⟨?_, fun hzero => by cases hzero⟩
      obtain ⟨port, _, htick⟩ := Except.bind_eq_ok.mp htick
      split at htick
      next => cases htick
      next =>
        obtain ⟨_, _, htick⟩ := Except.bind_eq_ok.mp htick
        cases htick
        rfl

omit [Scalar α] in
/-- Starting anew clears the samples and sets the start of the clock, and that is all it does to
the model. -/
theorem restart_diagram (h : restart start s = .ok () s') :
    s'.diagram = s.diagram.clearSignals.startingAt start ∧
      (∃ clock, s'.diagram.clock = .ok clock ∧ s'.clock = some clock) ∧
      s' = { s with
        editor := s'.editor, firstStart := s'.firstStart, clock := s'.clock,
        iteration := 0, graph := none, scheduler := s.scheduler.forget } := by
  simp only [restart, EStateM.bind_eq_ok, EStateM.get_eq_ok, EStateM.lift_eq_ok,
    EStateM.modify_eq_ok, model_eq_ok] at h
  obtain ⟨_, s, ⟨rfl, rfl⟩, _, s, ⟨_, rfl⟩, _, s, ⟨_, rfl⟩, _, s₁, rfl, _, s₂, hclear, _, s₃, hstart,
    _, s₃, ⟨rfl, rfl⟩, clock, s₃, ⟨hclock, rfl⟩, rfl⟩ := h
  obtain ⟨editor, hedit, rfl⟩ := edit_eq_ok.mp hclear
  cases hedit
  obtain ⟨editor', hedit', rfl⟩ := edit_eq_ok.mp hstart
  obtain ⟨id, hid, hdiagram⟩ := Edit.setClockStart_ok hedit'
  rw [← Diagram.startingAt_of_clock hid] at hdiagram
  exact ⟨hdiagram, ⟨clock, hclock, rfl⟩, rfl⟩

omit [Scalar α] in
/-- The clock of a simulation that has started anew starts when it was told to. -/
theorem restart_starts (h : restart start s = .ok () s') :
    s.diagram.Retimed s'.diagram ∧ s'.StartsAt start ∧ s'.time = s.time := by
  obtain ⟨hdiagram, ⟨clock, hclock, hrun⟩, hrest⟩ := restart_diagram h
  have hbefore : s.diagram.clearSignals.clock = .ok clock := by
    rw [← Diagram.clock_startingAt _ start, ← hdiagram, hclock]
  obtain ⟨b, old, step, hb, hoperator⟩ := Diagram.exists_block_of_clock hbefore
  refine ⟨?_, ⟨clock, b.startingAt start, step, hclock, hrun, ?_, ?_⟩, by rw [hrest]⟩
  · rw [hdiagram]
    exact s.diagram.sameShape_clearSignals.retimed.trans (Diagram.retimed_startingAt _ _)
  · rw [hdiagram, Diagram.startingAt_of_clock hbefore, Diagram.block?_modifyBlock, if_pos rfl, hb]
    rfl
  · rw [Block.startingAt, hoperator]

/-! ### Iterations after the start -/

variable {groups : List Group} {parts : List (List (PortId × Sample α))} {p : PortId}

/-- All samples of the newest iteration carry its time. -/
theorem Iterated.time_of_sample? (h : Iterated s s' tick groups parts) (hs : s.Sized)
    {x : Sample α} (hx : s'.diagram.sample? p tick.iteration = some x) : x.time = tick.time := by
  have hp : p ∈ s.diagram.computedPorts := by
    rw [← h.shape.computedPorts]
    exact (h.sized hs).mem_computedPorts hx
  obtain ⟨⟨_, y⟩, hmem, rfl⟩ := List.mem_map.mp (h.map_fst_perm.mem_iff.mpr hp)
  cases hx.symm.trans (h.sample?_new hs hmem)
  exact h.stamped hmem

/-- An iteration was added to those since the clock started. -/
structure Ticked (s s' : Simulation α ω) : Prop where
  shape : s.diagram.SameShape s'.diagram
  clock : s'.clock = s.clock
  iteration : s'.iteration = s.iteration + 1
  earlier : ∀ p k, k ≠ s.iteration → s'.diagram.sample? p k = s.diagram.sample? p k
  stamped : ∀ p x, s'.diagram.sample? p s.iteration = some x → x.time = s'.time
  tracked : ∀ start, s.StartsAt start → (s.iteration = 0 → s'.time = start) ∧
    ∀ p f x, s'.diagram.Tracks p f → s'.diagram.sample? p s.iteration = some x →
      x = ⟨s'.time, f start s'.time⟩

/-- The iteration of a turn is added to the simulation that was made ready. -/
theorem Reachable.ticked (hs : s.Reachable) (h : attempt s = .ok () s') :
    ∃ s₀, ready s = .ok () s₀ ∧ Prepared s s₀ ∧ Ticked s₀ s' := by
  obtain ⟨s₀, tick, g, parts, hready, hprepared, hg, hiterated, htime, _⟩ :=
    hs.current.attempt hs.aligned h
  have hsized := hprepared.aligned.sized
  have hiteration := iteration_of_nextTick hiterated.next
  refine ⟨s₀, hready, hprepared, hiterated.shape, ?_, ?_, fun p k hk => ?_, fun p x hx => ?_,
    fun start hstart => ⟨fun hzero => ?_, fun p f x hp hx => ?_⟩⟩
  · rw [hiterated.rest]
  · rw [hiterated.rest]
  · exact hiterated.sample?_of_ne hsized (hiteration ▸ hk)
  · rw [htime]
    exact hiterated.time_of_sample? hsized (hiteration ▸ hx)
  · rw [htime]
    exact (hstart.nextTick hiterated.next).2 hzero
  · rw [htime, ← (hstart.nextTick hiterated.next).1]
    exact hiterated.tracked hsized hg hp (hiteration ▸ hx)

/-- Where the clock of the model is that of the run, making ready does not come between. -/
theorem StartsAt.ticked (hstart : s.StartsAt start) (hs : s.Reachable)
    (h : attempt s = .ok () s') : Ticked s s' := by
  obtain ⟨s₀, hready, hprepared, hticked⟩ := hs.ticked h
  obtain ⟨clock, _, _, hfound, hrun, _⟩ := hstart
  obtain ⟨hdiagram, hclock⟩ := diagram_of_ready hfound hready
  have hclock₀ : s₀.clock = s.clock := by
    rcases hclock with hsame | hclock
    · exact hsame
    · rw [hclock, hrun]
  have hiteration := hprepared.iteration
  refine ⟨hdiagram ▸ hticked.shape, hticked.clock.trans hclock₀, ?_, fun p k hk => ?_,
    fun p x hx => ?_, fun start hstart => ?_⟩
  · rw [hticked.iteration, hiteration]
  · rw [← hdiagram]
    exact hticked.earlier p k (hiteration ▸ hk)
  · exact hticked.stamped p x (hiteration ▸ hx)
  · have htracked := hticked.tracked start (hstart.ready hready)
    rwa [hiteration] at htracked

theorem Ticked.starts (h : Ticked s s') (hstart : s.StartsAt start) :
    s'.StartsAt start := hstart.sameShape h.shape h.clock

/-- The simulation has the time of its newest samples. -/
def Stamped (s : Simulation α ω) : Prop :=
  ∀ p k x, s.diagram.sample? p k = some x → k + 1 = s.iteration → x.time = s.time

theorem Ticked.isStamped (h : Ticked s s') : s'.Stamped := by
  intro p k x hx hk
  rw [h.iteration] at hk
  cases Nat.succ.inj hk
  exact h.stamped p x hx

theorem Reachable.stamped (h : s.Reachable) : s.Stamped := by
  -- where nothing has been computed there is nothing to show
  have hnone {s : Simulation α ω} (hzero : s.iteration = 0) : s.Stamped := by
    intro p k x _ hk
    omega
  induction h with
  | made _ hfresh _ => exact hnone hfresh.iteration
  | begun h hok => exact hnone (h.begin hok).2
  | advanced h hok _ =>
      obtain ⟨tried, events, hattempt, _, ⟨_, hs'⟩ | ⟨_, _, _, _, _, hfired⟩⟩ :=
        advance_ok h.aligned hok
      · obtain ⟨_, _, _, hticked⟩ := h.ticked hattempt
        have htried := hticked.isStamped
        rw [hs']
        exact htried
      · exact hnone hfired.fresh.iteration
  | configured _ hchange ih =>
      rw [Stamped, hchange.diagram, hchange.rest]
      exact ih

/-! ### After an event -/

omit [Scalar α] in
theorem fire_idle {index : Nat} {time : α} (hidle : ∀ event ∈ s.events, event.callback.Idle)
    (h : fire index time s = .ok () s') : s'.diagram = s.diagram ∧ s'.time = s.time := by
  rw [fire] at h
  split at h
  next =>
    cases h
    exact ⟨rfl, rfl⟩
  next event hevent =>
    split at h
    next scene hcallback =>
      cases h
      exact ⟨hidle event (List.mem_of_getElem? hevent) time _ _ scene hcallback, rfl⟩
    next => cases h

/-- After a crossing was handled the clock starts at the earliest of the located times, and
nothing else of the model is different. -/
theorem handleCrossing_restarts {first : Candidate α} {rest : List (Candidate α)} {index : Nat}
    (hs : s.Steady) (hidle : ∀ event ∈ s.events, event.callback.Idle)
    (h : handleCrossing first (first :: rest) s = .ok index s') :
    s.diagram.Retimed s'.diagram ∧ s'.StartsAt s'.time ∧
      ∃ (s₁ : Simulation α ω) (located : List (α × Nat)) (s₂ : Simulation α ω),
      (first :: rest).mapM (locate first.bracket.left.time) s₁ = .ok located s₂ ∧
        s₁.locator = s.locator ∧ s'.time = (earliest first.event located).1 := by
  obtain ⟨located, time, s₁, s₂, s₃, s₄, s₅, s₆, hrewind, hlocate, hearliest, hcompute, hs₄, hmark,
    hfire, hrestart⟩ := handleCrossing_steps h
  have hback := Trial.rewindStep hs hrewind
  obtain ⟨hlocated, _⟩ := Trial.locateAll hback.steady hlocate
  have htrial := (hback.trans hlocated).trans (Trial.computeForced hlocated.steady hcompute)
  have hidle₅ : ∀ event ∈ s₅.events, event.callback.Idle := by
    rw [hmark, hs₄, htrial.rest]
    exact forall_callback_modify hidle
  have hdiagram₅ : s₅.diagram = s₃.diagram := by
    rw [hmark, hs₄]
    rfl
  have htime₅ : s₅.time = time := by rw [hmark, hs₄]
  obtain ⟨hdiagram₆, htime₆⟩ := fire_idle hidle₅ hfire
  obtain ⟨hretimed, hstarts, htime⟩ := restart_starts hrestart
  rw [hdiagram₆, hdiagram₅] at hretimed
  have htime : s'.time = time := htime.trans (htime₆.trans htime₅)
  refine ⟨htrial.shape.retimed.trans hretimed, htime ▸ hstarts, s₁, located, s₂, hlocate, ?_, ?_⟩
  · rw [hback.rest]
  · rw [hearliest, htime]

/-- A turn looks at the events, and handles a crossing if any is found. -/
theorem Turn.Happens.inspected {t : Turn α ω} (h : t.Happens) : ∃ candidates s₁,
    inspectEvents t.tried = .ok candidates s₁ ∧ (candidates = [] ∧ t.fired = none ∨
      ∃ first rest j, candidates = first :: rest ∧ t.fired = some j ∧
        handleCrossing first (first :: rest) s₁ = .ok j t.after) := by
  have hadvance := h.advance
  rw [Simulation.advance, EStateM.bind_of_ok h.attempt] at hadvance
  obtain ⟨fired, s₂, hprocess, hadvance⟩ := EStateM.bind_eq_ok.mp hadvance
  obtain ⟨candidates, s₁, hinspect, hprocess⟩ := EStateM.bind_eq_ok.mp hprocess
  refine ⟨candidates, s₁, hinspect, ?_⟩
  cases candidates with
  | nil =>
      obtain ⟨rfl, rfl⟩ := EStateM.pure_eq_ok.mp hprocess
      obtain ⟨_, _, _, hdone⟩ := EStateM.bind_eq_ok.mp hadvance
      exact .inl ⟨rfl, (EStateM.pure_eq_ok.mp hdone).1⟩
  | cons first rest =>
      obtain ⟨j, s₂, hhandle, hdone⟩ := EStateM.bind_eq_ok.mp hprocess
      obtain ⟨rfl, rfl⟩ := EStateM.pure_eq_ok.mp hdone
      obtain ⟨hsame, rfl⟩ := EStateM.pure_eq_ok.mp hadvance
      exact .inr ⟨first, rest, j, rfl, hsame, hhandle⟩

/-- What a turn leaves in which an event fires: the clock starts anew at the earliest of the
times that were located. -/
structure Turn.Restarts (t : Turn α ω) (candidates : List (Candidate α)) : Prop where
  inspected : ∃ s₁, inspectEvents t.tried = .ok candidates s₁
  fresh : t.after.Fresh
  retimed : t.tried.diagram.Retimed t.after.diagram
  starts : t.after.StartsAt t.after.time
  located : ∃ (first : Candidate α) (s₁ s₂ : Simulation α ω) (located : List (α × Nat)),
    first ∈ candidates ∧
    candidates.mapM (locate first.bracket.left.time) s₁ = .ok located s₂ ∧
      s₁.locator = t.tried.locator ∧ t.after.time = (earliest first.event located).1

theorem Turn.Happens.restarts {t : Turn α ω} {j : Nat} (h : t.Happens) (hs : t.before.Aligned)
    (hidle : ∀ event ∈ t.before.events, event.callback.Idle) (hfired : t.fired = some j) :
    ∃ candidates, t.Restarts candidates := by
  obtain ⟨candidates, s₁, hinspect, ⟨_, hnone⟩ | ⟨first, rest, j, rfl, _, hhandle⟩⟩ := h.inspected
  · cases hfired.symm.trans hnone
  · obtain ⟨htried, hevents⟩ := hs.attempt h.attempt
    obtain ⟨hs₁, hrearming, _⟩ := inspectEvents_ok hinspect
    rw [hevents] at hrearming
    have hsteady := htried.toSteady.inspected hinspect
    obtain ⟨_, hmarked⟩ := handleCrossing_ok hsteady (hrearming.callbacks hs.callbacks) hhandle
    obtain ⟨hretimed, hstarts, s₂, located, s₃, hlocate, hlocator, htime⟩ :=
      handleCrossing_restarts hsteady (hrearming.callbacks hidle) hhandle
    have hsame : s₁.locator = t.tried.locator := by rw [hs₁]
    rw [hs₁] at hretimed
    exact ⟨_, ⟨s₁, hinspect⟩, hmarked.fresh, hretimed, hstarts,
      ⟨first, s₂, s₃, located, List.mem_cons_self, hlocate, hlocator.trans hsame, htime⟩⟩

end Simulation

end CausalBlocks
