import CausalBlocks.Proofs.Simulation.Alignment
import CausalBlocks.Simulation.Crossing

/-!
# Handling crossings

Looking at events arms some of them again and changes nothing else. Locating a
crossing computes and takes back iterations, which leaves the shape of the model
alone. An event that fires is marked, and the clock starts anew.
-/

namespace CausalBlocks

variable {α ω β : Type} [Scalar α]

namespace Simulation

variable {s s' s'' : Simulation α ω}

/-! ### Looking at events -/

/-- What looking at an event makes of it: a mark goes if the level can be watched
again. -/
inductive Rearmed (d : Diagram α) (event : StateEvent α ω) : StateEvent α ω → Prop
  | armed (h : event.fired = false) : Rearmed d event event
  | marked (h : event.fired = true) {free : Bool} (hfree : event.watch.canRearm d = .ok free) :
      Rearmed d event { event with fired := !free }

theorem Rearmed.callback {d : Diagram α} {event event' : StateEvent α ω}
    (h : Rearmed d event event') : event'.callback = event.callback := by
  cases h <;> rfl

/-- All events after they have been looked at. -/
structure Rearming (d : Diagram α) (events events' : List (StateEvent α ω)) : Prop where
  length : events'.length = events.length
  event : ∀ (i : Nat) event, events[i]? = some event →
    ∃ event', events'[i]? = some event' ∧ Rearmed d event event'

theorem Rearming.callbacks {d : Diagram α} {events events' : List (StateEvent α ω)}
    {P : Callback α ω → Prop} (h : Rearming d events events')
    (hP : ∀ event ∈ events, P event.callback) : ∀ event ∈ events', P event.callback := by
  intro event' hevent'
  obtain ⟨i, hi⟩ := List.mem_iff_getElem?.mp hevent'
  have hlt : i < events.length := h.length ▸ (List.getElem?_eq_some_iff.mp hi).1
  obtain ⟨_, hsame, hrearmed⟩ := h.event i _ (List.getElem?_eq_getElem hlt)
  cases hi.symm.trans hsame
  rw [hrearmed.callback]
  exact hP _ (List.getElem_mem hlt)

theorem inspectEvent_ok {index : Nat} {found : Option (Candidate α)} {event : StateEvent α ω}
    (hevent : s.events[index]? = some event) (h : inspectEvent index s = .ok found s') :
    ∃ event', Rearmed s.diagram event event' ∧
      s' = { s with events := s.events.set index event' } ∧
        ∀ candidate ∈ found, candidate.event = index ∧ event.fired = false := by
  obtain ⟨hlt, hget⟩ := List.getElem?_eq_some_iff.mp hevent
  have hsame : { s with events := s.events.set index event } = s := by
    rw [← hget, List.set_getElem_self]
  simp only [inspectEvent, EStateM.bind_eq_ok, EStateM.get_eq_ok] at h
  obtain ⟨_, s, ⟨rfl, rfl⟩, h⟩ := h
  rw [hevent] at h
  obtain ⟨watch, callback, fired⟩ := event
  cases fired with
  | true =>
      simp only [EStateM.bind_eq_ok, EStateM.lift_eq_ok] at h
      obtain ⟨free, s, ⟨hfree, rfl⟩, h⟩ := h
      refine ⟨_, .marked rfl hfree, ?_⟩
      simp only [EStateM.ite_eq_ok, EStateM.bind_eq_ok, setFired, EStateM.modify_eq_ok,
        EStateM.pure_eq_ok] at h
      obtain ⟨rfl, _, s₁, rfl, rfl, rfl⟩ | ⟨hkept, rfl, rfl⟩ := h
      · refine ⟨?_, fun _ hmem => by cases hmem⟩
        have : Inhabited (StateEvent α ω) := ⟨⟨watch, callback, true⟩⟩
        rw [List.modify_eq_set, hevent]
        rfl
      · cases free with
        | true => exact absurd rfl hkept
        | false => exact ⟨hsame.symm, fun _ hmem => by cases hmem⟩
  | false =>
      refine ⟨_, .armed rfl, ?_⟩
      simp only [EStateM.bind_eq_ok, EStateM.lift_eq_ok] at h
      obtain ⟨crossed, s, ⟨hcrossed, rfl⟩, h⟩ := h
      simp only [EStateM.ite_eq_ok, EStateM.bind_eq_ok, EStateM.lift_eq_ok,
        EStateM.pure_eq_ok] at h
      obtain ⟨_, history, s, ⟨_, rfl⟩, rfl, rfl⟩ | ⟨_, rfl, rfl⟩ := h
      · refine ⟨hsame.symm, fun candidate hmem => ?_⟩
        obtain ⟨_, _, rfl⟩ := Option.map_eq_some_iff.mp hmem
        exact ⟨rfl, rfl⟩
      · exact ⟨hsame.symm, fun _ hmem => by cases hmem⟩

/-- The state `s₁` in which some events have been looked at, but not the pending ones. -/
structure Inspecting (s : Simulation α ω) (pending : List Nat) (found : List (Candidate α))
    (s₁ : Simulation α ω) : Prop where
  rest : s₁ = { s with events := s₁.events }
  length : s₁.events.length = s.events.length
  nodup : pending.Nodup
  bound : ∀ i ∈ pending, i < s.events.length
  waiting : ∀ i ∈ pending, s₁.events[i]? = s.events[i]?
  seen : ∀ (i : Nat) event, i ∉ pending → s.events[i]? = some event →
    ∃ event', s₁.events[i]? = some event' ∧ Rearmed s.diagram event event'
  armed : ∀ candidate ∈ found, ∃ event, s.events[candidate.event]? = some event ∧
    event.fired = false

theorem Inspecting.start (s : Simulation α ω) :
    Inspecting s (List.range s.events.length) [] s where
  rest := rfl
  length := rfl
  nodup := List.nodup_range
  bound i := List.mem_range.mp
  waiting _ _ := rfl
  seen i event hi hevent :=
    absurd (List.mem_range.mpr (List.getElem?_eq_some_iff.mp hevent).1) hi
  armed _ hmem := by cases hmem

theorem Inspecting.diagram {pending : List Nat} {found : List (Candidate α)}
    {s₁ : Simulation α ω} (h : Inspecting s pending found s₁) : s₁.diagram = s.diagram := by
  rw [h.rest]
  rfl

theorem Inspecting.next {index : Nat} {pending : List Nat} {found : List (Candidate α)}
    {s₁ s₂ : Simulation α ω} {found? : Option (Candidate α)}
    (h : Inspecting s (index :: pending) found s₁) (hok : inspectEvent index s₁ = .ok found? s₂) :
    Inspecting s pending (found ++ found?.toList) s₂ := by
  obtain ⟨hnot, hnodup⟩ := List.nodup_cons.mp h.nodup
  have hlt := h.bound index List.mem_cons_self
  have hevent := List.getElem?_eq_getElem hlt
  have hevent₁ := (h.waiting index List.mem_cons_self).trans hevent
  have hdiagram := h.diagram
  obtain ⟨event', hrearmed, rfl, hfound⟩ := inspectEvent_ok hevent₁ hok
  rw [hdiagram] at hrearmed
  refine ⟨by rw [h.rest], (List.length_set ..).trans h.length, hnodup,
    fun i hi => h.bound i (List.mem_cons_of_mem _ hi), fun i hi => ?_, fun i event hi hi' => ?_,
    fun candidate hmem => ?_⟩
  · have hne : index ≠ i := fun heq => hnot (heq ▸ hi)
    exact (List.getElem?_set_ne hne).trans (h.waiting i (List.mem_cons_of_mem _ hi))
  · by_cases heq : index = i
    · subst heq
      cases hevent.symm.trans hi'
      exact ⟨event', List.getElem?_set_self (h.length ▸ hlt), hrearmed⟩
    · dsimp only
      rw [List.getElem?_set_ne heq]
      exact h.seen i event (List.not_mem_cons_of_ne_of_not_mem (Ne.symm heq) hi) hi'
  · rcases List.mem_append.mp hmem with hmem | hmem
    · exact h.armed candidate hmem
    · obtain ⟨rfl, harmed⟩ := hfound candidate (Option.mem_toList.mp hmem)
      exact ⟨_, hevent, harmed⟩

theorem inspectEvents_ok {candidates : List (Candidate α)}
    (h : inspectEvents s = .ok candidates s') :
    s' = { s with events := s'.events } ∧ Rearming s.diagram s.events s'.events ∧
      ∀ candidate ∈ candidates, ∃ event, s.events[candidate.event]? = some event ∧
        event.fired = false := by
  simp only [inspectEvents, EStateM.bind_eq_ok, EStateM.get_eq_ok] at h
  obtain ⟨_, s, ⟨rfl, rfl⟩, h⟩ := h
  have hdone := EStateM.filterMapM_ok (fun _ _ _ _ _ _ => Inspecting.next) (.start s) h
  exact ⟨hdone.rest, ⟨hdone.length, fun i event => hdone.seen i event List.not_mem_nil⟩, hdone.armed⟩

theorem Steady.inspected {candidates : List (Candidate α)} (hs : s.Steady)
    (h : inspectEvents s = .ok candidates s') : s'.Steady := by
  rw [(inspectEvents_ok h).1]
  exact ⟨hs.fitted, hs.graph, hs.kept⟩

/-! ### Trying out -/

/-- What trying out iterations may do. -/
structure Trial (s s' : Simulation α ω) : Prop where
  steady : s'.Steady
  shape : s.diagram.SameShape s'.diagram
  rest : s' = { s with
    editor := s'.editor, graph := s'.graph, scheduler := s'.scheduler, tracers := s'.tracers,
    iteration := s'.iteration, time := s'.time, forcedStep := s'.forcedStep }

namespace Trial

omit [Scalar α] in
theorem refl (h : s.Steady) : Trial s s := ⟨h, .refl _, rfl⟩

omit [Scalar α] in
theorem trans (h : Trial s s') (h' : Trial s' s'') : Trial s s'' :=
  ⟨h'.steady, h.shape.trans h'.shape, by rw [h'.rest, h.rest]⟩

omit [Scalar α] in
theorem rewindStep (hs : s.Steady) (h : rewindStep s = .ok () s') : Trial s s' := by
  simp only [Simulation.rewindStep, EStateM.bind_eq_ok, EStateM.modify_eq_ok] at h
  obtain ⟨_, s₁, rfl, h⟩ := h
  obtain ⟨editor, hedit, rfl⟩ := edit_eq_ok.mp h
  cases hedit
  have hshape : s.diagram.SameShape s.diagram.rewind := s.diagram.sameShape_rewind
  exact ⟨⟨hshape.fitted hs.fitted, fun g hg => hshape.covers (hs.graph g hg),
    fun groups hgroups => hshape.covers (hs.kept groups hgroups)⟩, hshape, rfl⟩

theorem computeForced {step : α} (hs : s.Steady) (h : computeForced step s = .ok () s') :
    Trial s s' := by
  have hforced : Steady { s with forcedStep := some step } := ⟨hs.fitted, hs.graph, hs.kept⟩
  rw [Simulation.computeForced] at h
  split at h
  next s₁ hcompute =>
    cases h
    obtain ⟨tick, groups, parts, hiterated⟩ := hforced.computeStep hcompute
    have hsteady := hiterated.steady hforced
    exact ⟨⟨hsteady.fitted, hsteady.graph, hsteady.kept⟩, hiterated.shape, by rw [hiterated.rest]⟩
  next => cases h

theorem probe {watch : Watch α} {lower time value : α} (hs : s.Steady)
    (h : probe watch lower time s = .ok value s') : Trial s s' := by
  simp only [Simulation.probe, EStateM.bind_eq_ok, model_eq_ok, EStateM.lift_eq_ok] at h
  obtain ⟨_, s₁, hcompute, _, s₁, ⟨rfl, rfl⟩, history, s₁, ⟨_, rfl⟩, _, s₂, hrewind, h⟩ := h
  have hforward := computeForced hs hcompute
  have hback := rewindStep hforward.steady hrewind
  cases hnewest : history.newest? with
  | some sample =>
      rw [hnewest] at h
      obtain ⟨_, rfl⟩ := EStateM.pure_eq_ok.mp h
      exact hforward.trans hback
  | none =>
      rw [hnewest] at h
      obtain ⟨_, _, _, h⟩ := EStateM.bind_eq_ok.mp h
      cases EStateM.throw_eq_ok.mp h

/-- A search tries out what it asks about. -/
theorem run {watch : Watch α} {lower time : α} (search : Search α) (hs : s.Steady)
    (h : search.run (Simulation.probe watch lower) s = .ok time s') : Trial s s' := by
  induction search generalizing s with
  | found time =>
      obtain ⟨rfl, rfl⟩ := EStateM.pure_eq_ok.mp h
      exact refl hs
  | probe time next ih =>
      obtain ⟨value, s₁, hprobe, hnext⟩ := EStateM.bind_eq_ok.mp h
      have hfirst := probe hs hprobe
      exact hfirst.trans (ih value hfirst.steady hnext)

theorem locate {lower : α} {candidate : Candidate α} {located : α × Nat} (hs : s.Steady)
    (h : locate lower candidate s = .ok located s') :
    Trial s s' ∧ located.2 = candidate.event := by
  simp only [Simulation.locate, EStateM.bind_eq_ok, EStateM.get_eq_ok, EStateM.pure_eq_ok] at h
  obtain ⟨_, s, ⟨rfl, rfl⟩, time, s₁, hsearch, rfl, rfl⟩ := h
  exact ⟨run _ hs hsearch, rfl⟩

theorem locateAll {lower : α} {candidates : List (Candidate α)} {located : List (α × Nat)}
    (hs : s.Steady) (h : candidates.mapM (Simulation.locate lower) s = .ok located s') :
    Trial s s' ∧ located.map Prod.snd = candidates.map Candidate.event := by
  let invariant (rest : List (Candidate α)) (found : List (α × Nat)) (s₁ : Simulation α ω) : Prop :=
    Trial s s₁ ∧ found.map Prod.snd ++ rest.map Candidate.event = candidates.map Candidate.event
  have hstep : ∀ candidate rest found s₁ next s₂, invariant (candidate :: rest) found s₁ →
      Simulation.locate lower candidate s₁ = .ok next s₂ → invariant rest (found ++ [next]) s₂ := by
    rintro candidate rest found s₁ next s₂ ⟨htrial, hevents⟩ hok
    obtain ⟨hlocate, hnext⟩ := locate htrial.steady hok
    refine ⟨htrial.trans hlocate, ?_⟩
    rw [← hevents, List.map_append, List.map_singleton, hnext, List.append_assoc]
    rfl
  have hinit : invariant candidates [] s := ⟨refl hs, rfl⟩
  obtain ⟨htrial, hevents⟩ := EStateM.mapM_ok hstep hinit h
  exact ⟨htrial, by simpa using hevents⟩

end Trial

theorem sooner_eq (best : Option (α × Nat)) (next : α × Nat) :
    sooner best next = best ∨ sooner best next = some next := by
  cases best with
  | none =>
      rw [sooner]
      split
      · exact .inr rfl
      · exact .inl rfl
  | some current =>
      rw [sooner]
      split
      · exact .inr rfl
      · exact .inl rfl

/-- The event that is first in time is one of those that were located. -/
theorem earliest_snd (first : Nat) (located : List (α × Nat)) :
    (earliest first located).2 = first ∨ (earliest first located).2 ∈ located.map Prod.snd := by
  have hmem : ∀ best ∈ located.foldl sooner none, best ∈ located := by
    refine List.foldlRecOn (motive := fun best? => ∀ best ∈ best?, best ∈ located) located sooner
      (fun _ hnone => by cases hnone) fun best? hbest next hnext best hmem => ?_
    rcases sooner_eq best? next with heq | heq
    · exact hbest best (heq ▸ hmem)
    · rw [heq] at hmem
      cases hmem
      exact hnext
  rw [earliest]
  cases hbest : located.foldl sooner none with
  | none => exact .inl rfl
  | some best => exact .inr (List.mem_map_of_mem (hmem best hbest))

/-! ### Firing -/

omit [Scalar α] in
theorem edit_keeps {P : Diagram α → Prop} {action : Edit α β} {x : β}
    (hkeeps : Edit.Keeps P action) (h : edit action s = .ok x s') (hs : P s.diagram) :
    P s'.diagram ∧ s' = { s with editor := s'.editor } := by
  obtain ⟨editor, hedit, rfl⟩ := edit_eq_ok.mp h
  have hstate := hkeeps s.editor hs
  rw [hedit] at hstate
  exact ⟨hstate, rfl⟩

theorem publishSample_ok (h : publishSample s = .ok () s') :
    s' = { s with tracers := s'.tracers } := by
  simp only [publishSample, EStateM.bind_eq_ok, EStateM.get_eq_ok, EStateM.ite_eq_ok,
    EStateM.pure_eq_ok, send, EStateM.modify_eq_ok] at h
  obtain ⟨_, s, ⟨rfl, rfl⟩, ⟨_, rfl⟩ | ⟨_, _, rfl⟩⟩ := h <;> rfl

omit [Scalar α] in
theorem fire_ok {index : Nat} {time : α} (hfitted : s.diagram.Fitted)
    (hcallbacks : ∀ event ∈ s.events, Callback.Fits event.callback)
    (h : fire index time s = .ok () s') :
    s'.diagram.Fitted ∧
      s' = { s with editor := s'.editor, stop := s'.stop, world := s'.world } := by
  rw [fire] at h
  split at h
  next =>
    cases h
    exact ⟨hfitted, rfl⟩
  next event hevent =>
    split at h
    next scene hcallback =>
      cases h
      exact ⟨hcallbacks event (List.mem_of_getElem? hevent) time _ _ scene hfitted hcallback, rfl⟩
    next => cases h

omit [Scalar α] in
theorem restart_ok {time : α} (hfitted : s.diagram.Fitted) (h : restart time s = .ok () s') :
    s'.Fresh ∧ s'.diagram.Fitted ∧ (∃ clock, s'.diagram.clock = .ok clock) ∧ s' = { s with
      editor := s'.editor, firstStart := s'.firstStart, clock := s'.clock,
      iteration := 0, graph := none, scheduler := s.scheduler.forget } := by
  simp only [restart, EStateM.bind_eq_ok, EStateM.get_eq_ok, EStateM.lift_eq_ok,
    EStateM.modify_eq_ok, model_eq_ok] at h
  obtain ⟨_, s, ⟨rfl, rfl⟩, old, s, ⟨_, rfl⟩, _, s, ⟨_, rfl⟩, _, s₁, hs₁, _, s₂, hclear, _, s₃, hstart,
    _, s₃, ⟨rfl, rfl⟩, clock, s₃, ⟨hclock, rfl⟩, rfl⟩ := h
  obtain ⟨editor, hedit, rfl⟩ := edit_eq_ok.mp hclear
  cases hedit
  subst hs₁
  have hunsampled : s.diagram.clearSignals.Unsampled := s.diagram.unsampled_clearSignals
  have hcleared : s.diagram.clearSignals.Fitted := s.diagram.sameShape_clearSignals.fitted hfitted
  obtain ⟨hunsampled, hrest⟩ := edit_keeps (Edit.unsampled_keptByTuning.setClockStart time) hstart hunsampled
  obtain ⟨hcleared, _⟩ := edit_keeps (Edit.fitted_keptByTuning.setClockStart time) hstart hcleared
  refine ⟨⟨hunsampled, rfl, rfl, rfl⟩, hcleared, ⟨clock, hclock⟩, ?_⟩
  rw [hrest]

omit [Scalar α] in
/-- A mark on an event does not change what the callbacks are. -/
theorem forall_callback_modify {events : List (StateEvent α ω)} {index : Nat} {fired : Bool}
    {P : Callback α ω → Prop} (h : ∀ event ∈ events, P event.callback) :
    ∀ event ∈ events.modify index fun event => { event with fired }, P event.callback := by
  intro event hevent
  obtain ⟨i, hi⟩ := List.mem_iff_getElem?.mp hevent
  rw [List.getElem?_modify] at hi
  obtain ⟨old, hold, rfl⟩ := Option.map_eq_some_iff.mp hi
  have hmem := h old (List.mem_of_getElem? hold)
  split <;> exact hmem

/-- What is left when an event has fired: a clock that starts anew, and a mark on the
event. -/
structure Fired (s s' : Simulation α ω) (index : Nat) : Prop where
  fresh : s'.Fresh
  fitted : s'.diagram.Fitted
  clocked : ∃ clock, s'.diagram.clock = .ok clock
  events : s'.events = s.events.modify index fun event => { event with fired := true }

/-- The states on the way from a crossing to a restart: back before the iteration, with the
crossings located, computed up to the earliest of them, published, marked and fired. -/
theorem handleCrossing_steps {first : Candidate α} {candidates : List (Candidate α)} {index : Nat}
    (h : handleCrossing first candidates s = .ok index s') :
    ∃ (located : List (α × Nat)) (time : α) (s₁ s₂ s₃ s₄ s₅ s₆ : Simulation α ω),
      rewindStep s = .ok () s₁ ∧
      candidates.mapM (locate first.bracket.left.time) s₁ = .ok located s₂ ∧
      earliest first.event located = (time, index) ∧
      computeForced (time - first.bracket.left.time) s₂ = .ok () s₃ ∧
      s₄ = { s₃ with time, tracers := s₄.tracers } ∧
      s₅ = { s₄ with events := s₄.events.modify index fun event => { event with fired := true } } ∧
      fire index time s₅ = .ok () s₆ ∧ restart time s₆ = .ok () s' := by
  simp only [handleCrossing, EStateM.bind_eq_ok, EStateM.modify_eq_ok, setFired,
    EStateM.pure_eq_ok] at h
  obtain ⟨_, s₁, hrewind, located, s₂, hlocate, _, s₃, hcompute, _, _, rfl, _, s₄, hpublish, _, s₅,
    hmark, _, s₆, hfire, _, _, hrestart, rfl, rfl⟩ := h
  exact ⟨located, _, s₁, s₂, s₃, s₄, s₅, s₆, hrewind, hlocate, rfl, hcompute,
    publishSample_ok hpublish, hmark, hfire, hrestart⟩

theorem handleCrossing_ok {first : Candidate α} {rest : List (Candidate α)} {index : Nat}
    (hs : s.Steady) (hcallbacks : ∀ event ∈ s.events, Callback.Fits event.callback)
    (h : handleCrossing first (first :: rest) s = .ok index s') :
    index ∈ (first :: rest).map Candidate.event ∧ Fired s s' index := by
  obtain ⟨located, time, s₁, s₂, s₃, s₄, s₅, s₆, hrewind, hlocate, hearliest, hcompute, hs₄, hmark,
    hfire, hrestart⟩ := handleCrossing_steps h
  have hback := Trial.rewindStep hs hrewind
  obtain ⟨hlocated, hevents⟩ := Trial.locateAll hback.steady hlocate
  have htrial := (hback.trans hlocated).trans (Trial.computeForced hlocated.steady hcompute)
  have hevents₄ : s₄.events = s.events := by rw [hs₄, htrial.rest]
  have hcallbacks₅ : ∀ event ∈ s₅.events, Callback.Fits event.callback := by
    rw [hmark, hevents₄]
    exact forall_callback_modify hcallbacks
  have hfitted₅ : s₅.diagram.Fitted := by
    rw [hmark, hs₄]
    exact htrial.steady.fitted
  obtain ⟨hfitted₆, hs₆⟩ := fire_ok hfitted₅ hcallbacks₅ hfire
  obtain ⟨hfresh, hfitted, hclocked, hs'⟩ := restart_ok hfitted₆ hrestart
  refine ⟨?_, hfresh, hfitted, hclocked, ?_⟩
  · have hindex := earliest_snd first.event located
    rw [hearliest] at hindex
    rcases hindex with rfl | hmem
    · exact List.mem_cons_self
    · rwa [hevents] at hmem
  · rw [hs', hs₆, hmark, hevents₄]

/-- What happens after an iteration: some events are armed again, and then nothing,
or one of those that were armed fires. -/
theorem processEvents_ok {fired : Option Nat} (hs : s.Steady)
    (hcallbacks : ∀ event ∈ s.events, Callback.Fits event.callback)
    (h : processEvents s = .ok fired s') :
    ∃ s₁, s₁ = { s with events := s₁.events } ∧ Rearming s.diagram s.events s₁.events ∧
      (fired = none ∧ s' = s₁ ∨ ∃ i event, fired = some i ∧ s.events[i]? = some event ∧
        event.fired = false ∧ Fired s₁ s' i) := by
  rw [processEvents, EStateM.bind_eq_ok] at h
  obtain ⟨candidates, s₁, hinspect, h⟩ := h
  obtain ⟨hs₁, hrearming, hfound⟩ := inspectEvents_ok hinspect
  refine ⟨s₁, hs₁, hrearming, ?_⟩
  cases candidates with
  | nil =>
      obtain ⟨rfl, rfl⟩ := EStateM.pure_eq_ok.mp h
      exact .inl ⟨rfl, rfl⟩
  | cons first rest =>
      simp only [EStateM.bind_eq_ok, EStateM.pure_eq_ok] at h
      obtain ⟨i, s₂, hhandle, rfl, rfl⟩ := h
      obtain ⟨hmem, hfired⟩ :=
        handleCrossing_ok (hs.inspected hinspect) (hrearming.callbacks hcallbacks) hhandle
      obtain ⟨candidate, hcandidate, rfl⟩ := List.mem_map.mp hmem
      obtain ⟨event, hevent, harmed⟩ := hfound candidate hcandidate
      exact .inr ⟨_, event, rfl, hevent, harmed, hfired⟩

end Simulation

end CausalBlocks
