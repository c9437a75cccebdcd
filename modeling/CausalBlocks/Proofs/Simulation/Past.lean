import CausalBlocks.Proofs.Simulation.Settling
import CausalBlocks.Proofs.Simulation.Stepping

/-!
# Earlier iterations

What an iteration left stays as it is while later ones are computed. So for each iteration since
the clock started there is a tick at which the samples still obey the model: the equations of its
blocks hold, its loops are settled, and all samples carry the time of the tick. The clock
gives each tick but the first its time and its step by what the iteration before it left.
-/

namespace CausalBlocks

variable {α ω : Type}

namespace Diagram

variable {d d' : Diagram α}

/-- Samples stay where they are. -/
theorem Extends.sample? (h : d.Extends d') {p : PortId} {k : Nat} {x : Sample α}
    (hx : d.sample? p k = some x) :
    d'.sample? p k = some x := by
  obtain ⟨history, hhistory, hx⟩ := Option.bind_eq_some_iff.mp hx
  obtain ⟨history', hhistory', hkeep⟩ := h.keeps p history hhistory
  exact Option.bind_eq_some_iff.mpr ⟨history', hhistory', hkeep k x hx⟩

variable {clock : BlockId} {k : Nat}

/-- The step of a clock from an iteration to the next one: the value that arrives at its input, or
what it announced if nothing is linked there. -/
inductive StepAfter (d : Diagram α) (clock : BlockId) (k : Nat) : α → Prop
  | announced {b : Block α} {start step : α} (hb : d.block? clock = some b)
      (hop : b.operator = .clock start step) (hopen : b.isLinked = false) : StepAfter d clock k step
  | driven {b : Block α} {driver : PortId} {x : Sample α} (hb : d.block? clock = some b)
      (hlinked : b.isLinked = true) (hdriver : d.driverOf (.input clock 0) = .ok driver)
      (hx : d.sample? driver k = some x) : StepAfter d clock k x.value

/-- There is one step from an iteration to the next. -/
theorem StepAfter.unique {step step' : α} (h : d.StepAfter clock k step)
    (h' : d.StepAfter clock k step') : step' = step := by
  cases h with
  | announced hb hop hopen =>
      cases h' with
      | announced hb' hop' _ =>
          cases hb.symm.trans hb'
          cases hop.symm.trans hop'
          rfl
      | driven hb' hlinked _ _ =>
          cases hb.symm.trans hb'
          cases hopen.symm.trans hlinked
  | driven hb hlinked hdriver hx =>
      cases h' with
      | announced hb' _ hopen =>
          cases hb.symm.trans hb'
          cases hopen.symm.trans hlinked
      | driven _ _ hdriver' hx' =>
          cases hdriver.symm.trans hdriver'
          cases hx.symm.trans hx'
          rfl

theorem StepAfter.extends {step : α} (h : d.StepAfter clock k step) (hd : d.Extends d') :
    d'.StepAfter clock k step := by
  cases h with
  | announced hb hop hopen =>
      obtain ⟨b', hb', hoperator, _⟩ := hd.shape.symm.block? hb
      have hlinked := Block.isLinked_of_frame (hd.shape.retimed.frame.frame_eq hb hb')
      exact .announced hb' (hoperator.trans hop) (hlinked.trans hopen)
  | driven hb hlinked hdriver hx =>
      obtain ⟨b', hb', _⟩ := hd.shape.symm.block? hb
      have hsame := Block.isLinked_of_frame (hd.shape.retimed.frame.frame_eq hb hb')
      exact .driven hb' (hsame.trans hlinked) ((hd.shape.driverOf _).trans hdriver) (hd.sample? hx)

variable [Scalar α] {tick : Tick α} {id : BlockId} {b : Block α}

/-- An equation that samples satisfy is satisfied by more of them. -/
theorem Satisfies.extends {b' : Block α} (h : d.Satisfies tick id b) (hd : d.Extends d')
    (hb : d.block? id = some b) (hb' : d'.block? id = some b') : d'.Satisfies tick id b' := by
  obtain ⟨_, hsame, hoperator, hrate, houtputs⟩ := hd.shape.symm.block? hb
  cases hb'.symm.trans hsame
  constructor
  · rw [hrate, hoperator, houtputs, hd.shape.pathOf]
    intro hdue
    obtain ⟨values, hvalues, hlength, hsamples⟩ := h.due hdue
    exact ⟨values, Operator.compute_refines (Simulation.readerOf_refines hd id) values hvalues,
      hlength, fun i value hvalue => hd.sample? (hsamples i value hvalue)⟩
  · rw [hrate, houtputs]
    intro hidle i hi
    obtain ⟨before, last, hiteration, hlast, hnow⟩ := h.held hidle i hi
    exact ⟨before, last, hiteration, hd.sample? hlast, hd.sample? hnow⟩

/-- A loop that is settled on samples is settled on more of them. -/
theorem LoopSettled.extends {ids : List BlockId} {values : List α}
    (h : d.LoopSettled tick ids values) (hd : d.Extends d') : d'.LoopSettled tick ids values := by
  refine ⟨h.solves.mono hd, fun id hid => ?_, fun id value b hmem hb hdue => ?_,
    fun id value b hmem hb hidle => ?_⟩
  · rw [hd.shape.portIds, h.ports id hid]
  · obtain ⟨b₀, hb₀, _, hrate, _⟩ := hd.shape.block? hb
    exact hd.sample? (h.due id value b₀ hmem hb₀ (hrate ▸ hdue))
  · obtain ⟨b₀, hb₀, _, hrate, _⟩ := hd.shape.block? hb
    obtain ⟨before, last, hiteration, hlast, hnow⟩ := h.held id value b₀ hmem hb₀ (hrate ▸ hidle)
    exact ⟨before, last, hiteration, hd.sample? hlast, hd.sample? hnow⟩

end Diagram

namespace Diagram

variable {d d' : Diagram ℚ} {tick : Tick ℚ} {g : DependencyGraph}

/-- The samples at a tick obey the model with its dependencies: they satisfy the equations of all
blocks outside the loops, and the loops are settled. -/
structure Obeyed (d : Diagram ℚ) (tick : Tick ℚ) (g : DependencyGraph) : Prop where
  dependencies : d.dependencies tick.iteration = .ok g
  equations : ∀ id ∈ d.primitives, (∀ ids, .cycle ids ∈ g.schedule → id ∉ ids) →
    ∃ b, d.block? id = some b ∧ d.Satisfies tick id b
  loops : d.Ported → ∀ ids, .cycle ids ∈ g.schedule → ∃ values, d.LoopSettled tick ids values

theorem Obeyed.extends (h : d.Obeyed tick g) (hd : d.Extends d') : d'.Obeyed tick g where
  dependencies := (hd.shape.dependencies _).trans h.dependencies
  equations id hid hcycle := by
    rw [hd.shape.primitives] at hid
    obtain ⟨b, hb, hsatisfies⟩ := h.equations id hid hcycle
    obtain ⟨b', hb', _⟩ := hd.shape.symm.block? hb
    exact ⟨b', hb', hsatisfies.extends hd hb hb'⟩
  loops hported ids hloop := by
    obtain ⟨values, hsettled⟩ := h.loops (hd.shape.symm.ported hported) ids hloop
    exact ⟨values, hsettled.extends hd⟩

/-- The tick of an iteration since the clock started, and what the iteration left. -/
structure Past (d : Diagram ℚ) (tick : Tick ℚ) : Prop where
  obeyed : ∃ g, d.Obeyed tick g
  stamped : ∀ p x, d.sample? p tick.iteration = some x → x.time = tick.time
  next : ∀ k, tick.iteration = k + 1 → ∃ clock last, d.clock = .ok clock ∧
    d.sample? (.output clock 0) k = some last ∧ tick.time = last.value + tick.step ∧
      d.StepAfter clock k tick.step

/-- Later iterations leave it as it is. -/
theorem Past.extends (h : d.Past tick) (hd : d.Extends d')
    (hsame : ∀ p, d'.sample? p tick.iteration = d.sample? p tick.iteration) : d'.Past tick where
  obeyed := by
    obtain ⟨g, hg⟩ := h.obeyed
    exact ⟨g, hg.extends hd⟩
  stamped p x hx := h.stamped p x (hsame p ▸ hx)
  next k hk := by
    obtain ⟨clock, last, hclock, hlast, htime, hstep⟩ := h.next k hk
    exact ⟨clock, last, hd.shape.clock.trans hclock, hd.sample? hlast, htime, hstep.extends hd⟩

end Diagram

namespace Simulation

/-- Where no step is imposed, the clock steps as it announced or as it is told. -/
theorem stepAfter_of_stepAfter [Scalar α] {s : Simulation α ω} {clock : BlockId} {k : Nat}
    {start announced step : α} (hunforced : s.forcedStep = none)
    (hparameters : s.clockParameters clock = .ok (start, announced))
    (h : s.stepAfter clock announced k = .ok step) : s.diagram.StepAfter clock k step := by
  obtain ⟨b, hb, hoperator⟩ := clockParameters_eq_ok.mp hparameters
  rw [stepAfter, hunforced] at h
  obtain ⟨b', hb', h⟩ := Except.bind_eq_ok.mp h
  cases hb.symm.trans (Diagram.block_eq_ok.mp hb')
  change (if b.isLinked then _ else _) = _ at h
  split at h
  next hlinked =>
    obtain ⟨x, hx, h⟩ := Except.bind_eq_ok.mp h
    cases h
    obtain ⟨driver, history, hdriver, hhistory, hx⟩ := Diagram.inputSample_eq_ok.mp hx
    refine .driven hb hlinked hdriver ?_
    rw [Diagram.sample?, hhistory, Option.bind_some, hx]
  next hopen =>
    cases h
    exact .announced hb hoperator (Bool.eq_false_iff.mpr hopen)

/-- A clock with nothing linked to it always steps as it announced. -/
theorem stepAfter_iff {s : Simulation α ω} {clock : BlockId} {k : Nat} {start announced step : α}
    (hparameters : s.clockParameters clock = .ok (start, announced))
    (hopen : ∃ b, s.diagram.block? clock = some b ∧ b.isLinked = false) :
    s.diagram.StepAfter clock k step ↔ step = announced := by
  obtain ⟨b, hb, hop⟩ := clockParameters_eq_ok.mp hparameters
  obtain ⟨_, hb', hopen⟩ := hopen
  cases hb.symm.trans hb'
  constructor
  case mp => exact (Diagram.StepAfter.announced hb hop hopen).unique
  case mpr =>
    rintro rfl
    exact .announced hb hop hopen

variable {s s' : Simulation ℚ ω} {tick : Tick ℚ}

/-- The iteration that a turn adds. -/
theorem Reachable.past_of_attempt (hs : s.Reachable) (hunforced : s.forcedStep = none)
    (h : attempt s = .ok () s') : s'.iteration = s.iteration + 1 ∧
      (∃ tick, tick.iteration = s.iteration ∧ s'.diagram.Past tick) ∧
        (s.iteration = 0 ∨ s.diagram.Extends s'.diagram ∧
          ∀ p k, k ≠ s.iteration → s'.diagram.sample? p k = s.diagram.sample? p k) := by
  obtain ⟨s₀, tick, g, parts, hready, hprepared, hg, hiterated, _, hloops⟩ := hs.settles h
  have hsized := hprepared.aligned.sized
  have hnext := iteration_of_nextTick hiterated.next
  have hextends : s₀.diagram.Extends s'.diagram := by
    rw [hiterated.diagram]
    exact Diagram.extends_recordAll _ _
  refine ⟨?_, ⟨tick, hnext.trans hprepared.iteration, ⟨g, ?_, fun id hid hcycle => ?_, ?_⟩, ?_, ?_⟩, ?_⟩
  · rw [hiterated.rest, ← hprepared.iteration]
  · rw [hiterated.shape.dependencies, hnext, hg]
  · exact hiterated.satisfies hsized (hiterated.shape.primitives ▸ hid) hcycle
  · exact fun hported => hloops (hiterated.shape.symm.ported hported)
  · exact fun p x => hiterated.time_of_sample? hsized
  · intro k hk
    rw [hnext] at hk
    obtain ⟨clock, hclock⟩ := hprepared.clocked
    obtain ⟨_, _, last, hparameters, hlast, hstep, htime⟩ :=
      step_of_nextTick hsized hclock hk hiterated.next
    have hunforced₀ : s₀.forcedStep = none := by
      rw [hs.aligned.ready_rest hready]
      exact hunforced
    exact ⟨clock, last, hextends.shape.clock.trans hclock, hextends.sample? hlast, htime,
      (stepAfter_of_stepAfter hunforced₀ hparameters hstep).extends hextends⟩
  · refine hprepared.diagram.symm.imp_right fun hsame => ?_
    rw [← hsame]
    exact ⟨hextends, fun p k hk =>
      hiterated.sample?_of_ne hsized (by rw [hnext, hprepared.iteration]; exact hk)⟩

/-- Every iteration since the clock started is still there. -/
theorem Reachable.past (hs : s.Reachable) (hunforced : s.forcedStep = none) :
    ∀ k < s.iteration, ∃ tick, tick.iteration = k ∧ s.diagram.Past tick := by
  -- where nothing has been computed there is nothing to show
  have hnone {s : Simulation ℚ ω} (hzero : s.iteration = 0) :
      ∀ k < s.iteration, ∃ tick, tick.iteration = k ∧ s.diagram.Past tick := by
    intro k hk
    omega
  induction hs with
  | made _ hfresh _ => exact hnone hfresh.iteration
  | begun h hok => exact hnone (h.begin hok).2
  | @advanced s s' _ hs hok ih =>
      obtain ⟨tried, events, hattempt, _, ⟨_, hs'⟩ | ⟨_, _, _, _, _, hfired⟩⟩ :=
        advance_ok hs.aligned hok
      · have hbefore : s.forcedStep = none := by
          obtain ⟨_, _, hrest⟩ := hs.aligned.attempt_rest hattempt
          rw [hs', hrest] at hunforced
          exact hunforced
        obtain ⟨hiteration, ⟨tick, htick, hpast⟩, hearlier⟩ := hs.past_of_attempt hbefore hattempt
        have hdiagram : s'.diagram = tried.diagram := by rw [hs']; rfl
        have hcount : s'.iteration = s.iteration + 1 := by rw [hs']; exact hiteration
        rw [hdiagram]
        intro k hk
        -- the newest iteration, or one that was there before
        by_cases hlast : k = s.iteration
        · exact ⟨tick, htick.trans hlast.symm, hpast⟩
        · have hk : k < s.iteration := by omega
          obtain ⟨hextends, hsame⟩ := hearlier.resolve_left (by omega)
          obtain ⟨earlier, rfl, hpast⟩ := ih hbefore k hk
          exact ⟨earlier, rfl, hpast.extends hextends fun p => hsame p _ hlast⟩
      · exact hnone hfired.fresh.iteration
  | configured _ hchange ih =>
      rw [hchange.rest] at hunforced
      rw [hchange.diagram]
      intro k hk
      rw [hchange.rest] at hk
      exact ih hunforced k hk

end Simulation

end CausalBlocks
