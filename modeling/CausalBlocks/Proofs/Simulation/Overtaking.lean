import CausalBlocks.Proofs.Simulation.Rearming
import CausalBlocks.Proofs.Simulation.Stepping

/-!
# Events that are overtaken

Of several events that crossed in one step only the earliest fires, and the clock starts anew at
its time. The others are looked at again after the iteration that follows the first one from
there. What they show then is how their signals go on from the restart, and so a crossing is
found again unless the restart lies beyond it or the signal turns back before the iteration.
-/

namespace CausalBlocks.Simulation

variable {α ω : Type} [Scalar α] {s s' tried : Simulation α ω} {t u : Turn α ω} {i : Nat}
  {event : StateEvent α ω} {p : PortId} {f : α → α → α}

/-! ### The first iteration after a start -/

omit [Scalar α] in
theorem lastTwo?_eq_some {h : History α} {x y : Sample α} :
    Watch.lastTwo? h = some (x, y) ↔ 2 ≤ h.size ∧ h[h.size - 2]? = some x ∧
      h[h.size - 1]? = some y := by
  simp only [Watch.lastTwo?, Option.bind_eq_bind, Option.bind_eq_some_iff, Array.back?_eq_getElem?]
  constructor
  · rintro ⟨x, hx, y, hy, h⟩
    split at h
    next => cases h
    next hsize =>
      cases h
      exact ⟨by omega, hx, hy⟩
  · rintro ⟨hsize, hx, hy⟩
    exact ⟨x, hx, y, hy, if_neg (by omega)⟩

/-- No crossing shows in the first iteration since the clock started. -/
theorem Turn.Happens.fired_eq_none (h : t.Happens) (hs : t.before.Reachable)
    (hzero : t.before.iteration = 0) : t.fired = none := by
  obtain ⟨candidates, s₁, hinspect, ⟨_, hnone⟩ | ⟨first, rest, _, rfl, _, _⟩⟩ := h.inspected
  · exact hnone
  · obtain ⟨hshown, _⟩ := inspectEvents_found hinspect
    obtain ⟨history, x, y, hhistory, hlast, _⟩ := (hshown first List.mem_cons_self).samples
    obtain ⟨s₀, _, hprepared, hticked⟩ := hs.ticked h.attempt
    have hiteration : t.tried.iteration = 1 := by
      rw [hticked.iteration, hprepared.iteration, hzero]
    have hsized : t.tried.Sized := (hs.aligned.attempt h.attempt).1.sized
    have hsize := (lastTwo?_eq_some.mp hlast).1
    rcases hsized.signal hhistory with hall | hnone <;> omega

/-- A turn watches what was watched before. -/
theorem Turn.Happens.watch (h : t.Happens) (hs : t.before.Aligned)
    (hevent : t.before.events[i]? = some event) :
    ∃ event', t.after.events[i]? = some event' ∧ event'.watch = event.watch := by
  by_cases hfired : t.fired = some i
  · obtain ⟨_, hsame, _, event', hevent', hwatch, _⟩ := h.event_of_fired hs hfired
    cases hevent.symm.trans hsame
    exact ⟨event', hevent', hwatch⟩
  · obtain ⟨event', hevent', hwatch, _⟩ := h.event_of_ne hs hevent hfired
    exact ⟨event', hevent', hwatch⟩

theorem Leads.watch {ts : List (Turn α ω)} (h : Leads s ts s') (hs : s.Aligned)
    (hevent : s.events[i]? = some event) :
    ∃ event', s'.events[i]? = some event' ∧ event'.watch = event.watch := by
  induction h generalizing event with
  | rest h => exact ⟨event, h.event_eq hevent, rfl⟩
  | @turn s s' t ts hchange h _ ih =>
      have hbefore := hs.configured hchange
      obtain ⟨event₁, hevent₁, hwatch₁⟩ := h.watch hbefore (hchange.event_eq hevent)
      obtain ⟨event₂, hevent₂, hwatch₂⟩ := ih (hbefore.advance h.advance) hevent₁
      exact ⟨event₂, hevent₂, hwatch₂.trans hwatch₁⟩

/-! ### Overtaken events -/

/-- An armed event crossed in a turn in which another one fired. The turn after that has the
first iteration since the clock started anew, and one more iteration is computed then. No
callback touches the model, and no events are added meanwhile. -/
structure Overtaken (t u : Turn α ω) (s tried : Simulation α ω) (i : Nat)
    (event : StateEvent α ω) : Prop where
  reachable : t.before.Reachable
  leads : Leads t.before [t, u] s
  computed : attempt s = .ok () tried
  idle : ∀ event ∈ t.before.events, event.callback.Idle
  kept : s.events.length = t.before.events.length
  watched : t.before.events[i]? = some event
  armed : event.fired = false
  crossed : event.watch.crossed t.tried.diagram = .ok true
  fires : ∃ j ≠ i, t.fired = some j

namespace Overtaken

/-- The turns of an overtaken event, one by one. -/
theorem turns (h : Overtaken t u s tried i event) : t.Happens ∧ Configured t.after u.before ∧
    u.Happens ∧ Configured u.after s ∧ u.before.Reachable ∧ s.Reachable := by
  have hs := h.leads.reachable h.reachable
  cases h.leads with
  | turn _ ht hlater =>
      cases hlater with
      | turn hchange hu hlater =>
          cases hlater with
          | rest hlast =>
              have hafter := h.reachable.advanced ht.advance
              exact ⟨ht, hchange, hu, hlast, hafter.configured hchange, hs⟩

theorem restarts (h : Overtaken t u s tried i event) : ∃ candidates, t.Restarts candidates := by
  obtain ⟨ht, _⟩ := h.turns
  obtain ⟨j, _, hfired⟩ := h.fires
  exact ht.restarts h.reachable.aligned h.idle hfired

/-- The first iteration after the clock has started anew. -/
structure Resumed (d : Diagram α) (start : α) (s : Simulation α ω) : Prop where
  retimed : d.Retimed s.diagram
  starts : s.StartsAt start
  iteration : s.iteration = 1
  time : s.time = start
  first : ∀ p f x, d.Tracks p f → s.diagram.sample? p 0 = some x → x = ⟨start, f start start⟩

theorem resumed (h : Overtaken t u s tried i event) :
    u.fired = none ∧ Resumed t.tried.diagram t.after.time s := by
  obtain ⟨_, hchange, hu, hlast, hbefore, _⟩ := h.turns
  obtain ⟨_, hrestarts⟩ := h.restarts
  have hstarts := hrestarts.starts.configured hchange
  have hzero : u.before.iteration = 0 := by
    rw [hchange.rest]
    exact hrestarts.fresh.iteration
  have hticked := hstarts.ticked hbefore hu.attempt
  obtain ⟨htime, htracked⟩ := hticked.tracked _ hstarts
  have hretimed : t.tried.diagram.Retimed u.tried.diagram := by
    have hshape := hticked.shape
    rw [hchange.diagram] at hshape
    exact hrestarts.retimed.trans hshape.retimed
  -- as no crossing shows, the iteration stays
  have hquiet := hu.fired_eq_none hbefore hzero
  obtain ⟨events, hafter⟩ : ∃ events,
      u.after = { u.tried with events, tracers := u.after.tracers } := by
    obtain ⟨_, events, hattempt, _, ⟨_, hsame⟩ | ⟨_, _, hfired, _⟩⟩ :=
      advance_ok hbefore.aligned hu.advance
    · cases hattempt.symm.trans hu.attempt
      exact ⟨events, hsame⟩
    · cases hquiet.symm.trans hfired
  have hdiagram : s.diagram = u.tried.diagram := by
    rw [hlast.diagram, hafter]
    rfl
  refine ⟨hquiet, ?_, ?_, ?_, ?_, fun p f x hp hx => ?_⟩
  · rw [hdiagram]
    exact hretimed
  · exact ((hticked.starts hstarts).congr (by rw [hafter]; rfl) (by rw [hafter])).configured hlast
  · rw [hlast.rest, hafter]
    exact hticked.iteration.trans (by rw [hzero])
  · rw [hlast.rest, hafter]
    exact htime hzero
  · rw [hdiagram, ← hzero] at hx
    have hx := htracked p f x (hp.retimed hretimed) hx
    rwa [htime hzero] at hx

/-- The first two iterations after the clock has started anew. -/
structure Sequel (d : Diagram α) (start : α) (tried : Simulation α ω) : Prop where
  retimed : d.Retimed tried.diagram
  iteration : tried.iteration = 2
  sized : tried.Sized
  first : ∀ p f x, d.Tracks p f → tried.diagram.sample? p 0 = some x → x = ⟨start, f start start⟩
  second : ∀ p f x, d.Tracks p f → tried.diagram.sample? p 1 = some x →
    x = ⟨tried.time, f start tried.time⟩

theorem sequel (h : Overtaken t u s tried i event) :
    Sequel t.tried.diagram t.after.time tried := by
  obtain ⟨_, _, _, _, _, hs⟩ := h.turns
  obtain ⟨_, hresumed⟩ := h.resumed
  have hticked := hresumed.starts.ticked hs h.computed
  have hretimed := hresumed.retimed.trans hticked.shape.retimed
  refine ⟨hretimed, by rw [hticked.iteration, hresumed.iteration],
    (hs.aligned.attempt h.computed).1.sized, fun p f x hp hx => ?_, fun p f x hp hx => ?_⟩
  · rw [hticked.earlier p 0 (by rw [hresumed.iteration]; exact Nat.zero_ne_one)] at hx
    exact hresumed.first p f x hp hx
  · rw [← hresumed.iteration] at hx
    exact (hticked.tracked _ hresumed.starts).2 p f x (hp.retimed hretimed) hx

/-- What an overtaken event shows in the second iteration after the restart. -/
theorem crossed_eq (h : Overtaken t u s tried i event)
    (hsource : t.tried.diagram.signalSource event.watch.signal = .ok p)
    (hp : t.tried.diagram.Tracks p f) : event.watch.crossed tried.diagram =
      .ok (crosses event.watch.direction (f t.after.time t.after.time)
        (f t.after.time tried.time) event.watch.level) := by
  have hsequel := h.sequel
  obtain ⟨ht, _⟩ := h.turns
  have hsized : t.tried.Sized := (h.reachable.aligned.attempt ht.attempt).1.sized
  -- the port had samples before the restart, so it gets them again
  have hcomputed : p ∈ tried.diagram.computedPorts := by
    obtain ⟨history, x, _, hhistory, hlast, _⟩ := crossed_eq_true_iff.mp h.crossed
    obtain ⟨_, hsame, hhistory⟩ := Diagram.signalHistory_eq_ok.mp hhistory
    cases hsource.symm.trans hsame
    rw [hsequel.retimed.computedPorts]
    refine hsized.mem_computedPorts (x := x) (k := history.size - 2) ?_
    rw [Diagram.sample?, hhistory]
    exact (lastTwo?_eq_some.mp hlast).2.1
  obtain ⟨history, hhistory⟩ := Diagram.exists_history_of_computed hcomputed
  have hsize := hsequel.sized p history hhistory
  rw [if_pos hcomputed, hsequel.iteration] at hsize
  have hsample : ∀ k, tried.diagram.sample? p k = history[k]? := fun k => by
    rw [Diagram.sample?, hhistory, Option.bind_some]
  obtain ⟨x, hfirst⟩ : ∃ x, history[0]? = some x := ⟨_, Array.getElem?_eq_getElem (by omega)⟩
  obtain ⟨y, hsecond⟩ : ∃ y, history[1]? = some y := ⟨_, Array.getElem?_eq_getElem (by omega)⟩
  rw [hsequel.first p f x hp ((hsample 0).trans hfirst)] at hfirst
  rw [hsequel.second p f y hp ((hsample 1).trans hsecond)] at hsecond
  have hlast : Watch.lastTwo? history = some (⟨_, _⟩, ⟨_, _⟩) :=
    lastTwo?_eq_some.mpr ⟨hsize.ge, by rw [hsize, hfirst], by rw [hsize, hsecond]⟩
  rw [Simulation.crossed_eq (Diagram.signalHistory_eq_ok.mpr
    ⟨p, hsequel.retimed.frame.signalSource hsource, hhistory⟩), hlast]
  rfl

/-- The event is still armed when the second iteration is looked at. -/
theorem still_armed (h : Overtaken t u s tried i event) : ∃ event',
    tried.events[i]? = some event' ∧ event'.watch = event.watch ∧ event'.fired = false := by
  obtain ⟨_, _, _, _, _, hs⟩ := h.turns
  obtain ⟨hquiet, _⟩ := h.resumed
  obtain ⟨j, hne, hfired⟩ := h.fires
  have hother : ∀ turn ∈ [t, u], turn.fired ≠ some i := by
    simp [hfired, hquiet, hne]
  obtain ⟨event', hevent', hwatch, hmark⟩ :=
    h.leads.marked_iff h.reachable.aligned h.watched hother
  rw [← (hs.aligned.attempt h.computed).2] at hevent'
  refine ⟨event', hevent', hwatch, Bool.eq_false_iff.mpr fun hmarked => ?_⟩
  rw [h.armed] at hmark
  exact Bool.false_ne_true (hmark.mp hmarked).1

/-- The signals of all events can be looked at again, as they were looked at before. -/
theorem signals (h : Overtaken t u s tried i event) : ∀ (k : Nat) event',
    tried.events[k]? = some event' →
      ∃ history, tried.diagram.signalHistory event'.watch.signal = .ok history := by
  intro k event' hevent'
  obtain ⟨ht, _, _, _, _, hs⟩ := h.turns
  obtain ⟨_, hrestarts⟩ := h.restarts
  obtain ⟨_, hinspect⟩ := hrestarts.inspected
  rw [(hs.aligned.attempt h.computed).2] at hevent'
  have hlt := (List.getElem?_eq_some_iff.mp hevent').1
  rw [h.kept] at hlt
  obtain ⟨old, hbefore⟩ : ∃ old, t.before.events[k]? = some old :=
    ⟨_, List.getElem?_eq_getElem hlt⟩
  obtain ⟨_, hsame, hwatch⟩ := h.leads.watch h.reachable.aligned hbefore
  cases hevent'.symm.trans hsame
  rw [← (h.reachable.aligned.attempt ht.attempt).2] at hbefore
  obtain ⟨history, hhistory⟩ := inspectEvents_signals hinspect k _ hbefore
  rw [hwatch]
  exact h.sequel.retimed.frame.signalHistory hhistory

/-- What is found is what crosses between the restart and the second iteration. -/
theorem inspected (h : Overtaken t u s tried i event)
    (hsource : t.tried.diagram.signalSource event.watch.signal = .ok p)
    (hp : t.tried.diagram.Tracks p f) : ∃ candidates s', inspectEvents tried = .ok candidates s' ∧
      ((∃ c ∈ candidates, c.event = i) ↔ crosses event.watch.direction
        (f t.after.time t.after.time) (f t.after.time tried.time) event.watch.level = true) := by
  obtain ⟨candidates, s', hinspect⟩ := inspectEvents_total h.signals
  obtain ⟨hshown, hfound⟩ := inspectEvents_found hinspect
  obtain ⟨event', hevent', hwatch, harmed⟩ := h.still_armed
  have hcrossed := h.crossed_eq hsource hp
  refine ⟨candidates, s', hinspect, ?_, fun hcrosses => ?_⟩
  · rintro ⟨c, hc, rfl⟩
    obtain ⟨⟨_, hsame, _, hwatch'⟩, history, before, after, hhistory, hlast, hcrosses, _⟩ :=
      hshown c hc
    cases hevent'.symm.trans hsame
    have htrue : c.watch.crossed tried.diagram = .ok true :=
      crossed_eq_true_iff.mpr ⟨history, before, after, hhistory, hlast, hcrosses⟩
    rw [← hwatch', hwatch, hcrossed] at htrue
    exact Except.ok.inj htrue
  · refine hfound i event' hevent' harmed ?_
    rw [hwatch, hcrossed, hcrosses]

end Overtaken

/-- Crossings are located at the start of the step, and what the clock steps by is a function of
the time. -/
structure Turn.Early (t : Turn α ω) : Prop where
  locator : t.before.locator = .before
  unforced : t.before.forcedStep = none
  bounded : Scalar.bounded t.before.time = true
  steps : ∃ clock step, t.tried.diagram.clock = .ok clock ∧ t.tried.diagram.StepsBy clock step ∧
    Timeless step

namespace Overtaken

end Overtaken

/-! ### Two levels in one step -/

/-- A simulation after a number of turns. -/
def after (s : Simulation α ω) : Nat → Simulation α ω
  | 0 => s
  | turns + 1 => (turnFrom (s.after turns)).after

end CausalBlocks.Simulation
