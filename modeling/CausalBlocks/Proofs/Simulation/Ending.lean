import CausalBlocks.Proofs.Scalar.Exact
import CausalBlocks.Proofs.Simulation.Abreast
import CausalBlocks.Proofs.Simulation.Forgetting
import CausalBlocks.Proofs.Simulation.Scheduling
import CausalBlocks.Proofs.Simulation.Supplying
import CausalBlocks.Proofs.Simulation.Synchrony
import CausalBlocks.Proofs.Simulation.Tracking

/-!
# Runs that end in time

A run looks for its end after each iteration: it ends when less than a step is left until the end
time, rounded to eight places. Where the clock always takes the same step, and the step and what
there is until the end are on that grid, no rounding remains, so that a run takes as many steps as
fit until its end, and at least one. Nothing else bounds it.
-/

namespace CausalBlocks

variable {α ω : Type}

/-! ### Steps that fit until the end -/

/-- The time after a number of steps. -/
def instant [Scalar α] (start step : α) (k : Nat) : α := start + (k : α) * step

namespace Exact

variable [Scalar α] [Exact α] {start step endTime : α}

theorem value_instant (start step : α) (k : Nat) :
    value (instant start step k) = value start + k * value step := by
  rw [instant, value_add, value_mul, value_natCast]

theorem instant_zero (start step : α) : instant start step 0 = start := by
  apply value_injective
  rw [value_instant, Nat.cast_zero, zero_mul, add_zero]

theorem instant_succ (start step : α) (k : Nat) :
    instant start step k + step = instant start step (k + 1) := by
  apply value_injective
  rw [value_add, value_instant, value_instant, Nat.cast_succ]
  ring

/-- How many steps fit until the end, but at least one. -/
noncomputable def stepsUntil (start step endTime : α) : ℕ :=
  max 1 ⌊(value endTime - value start) / value step⌋₊

theorem value_pos (h : 0 < step) : 0 < value step := by
  rwa [lt_iff, value_zero] at h

/-- On the grid, less than a step is left exactly after as many steps as fit. -/
theorem roundTo_left_lt_iff (hstep : 0 < step) (hgrid : OnGrid 8 step)
    (hspan : OnGrid 8 (endTime - start)) {k : Nat} (hk : k ≠ 0) :
    Scalar.roundTo (endTime - instant start step k) 8 < step ↔
      stepsUntil start step endTime ≤ k := by
  have hsame : endTime - instant start step k = endTime - start - (k : α) * step := by
    apply value_injective
    rw [value_sub, value_sub, value_sub, value_instant, value_mul, value_natCast]
    ring
  have hfloor : ⌊(value endTime - value start) / value step⌋₊ ≤ k ↔
      value endTime - value start < (k + 1) * value step := by
    rw [← Nat.lt_succ_iff, Nat.floor_lt' (Nat.succ_ne_zero k), div_lt_iff₀ (value_pos hstep),
      Nat.cast_succ]
  rw [hsame, (hspan.sub (hgrid.natCast_mul k)).roundTo_eq, lt_iff, value_sub, value_sub, value_mul,
    value_natCast, stepsUntil, max_le_iff, hfloor]
  constructor
  · intro hleft
    exact ⟨Nat.one_le_iff_ne_zero.mpr hk, by linarith⟩
  · rintro ⟨_, hleft⟩
    linarith

end Exact

/-! ### Clocks that always take the same step -/

namespace Diagram

variable {d d' : Diagram α} {clock id : BlockId} {start step announced : α}

/-- What gives a clock its step: itself while nothing is linked to it, or else a constant. -/
inductive StepGiven (d : Diagram α) (clock : BlockId) : α → α → Prop
  | announced {step : α} (h : d.incoming (.input clock 0) = none) : StepGiven d clock step step
  | constant {announced step : α} {source : BlockId} {b : Block α}
      (h : d.driverOf (.input clock 0) = .ok (.output source 0)) (hb : d.block? source = some b)
      (hoperator : b.operator = .constant step) : StepGiven d clock announced step

/-- The clock of a diagram starts at a time, is never held, and always takes the same step. -/
structure FixedRate (d : Diagram α) (clock : BlockId) (start step : α) : Prop where
  found : d.clock = .ok clock
  block : ∃ b announced, d.block? clock = some b ∧ b.rate = none ∧
    b.operator = .clock start announced ∧ d.StepGiven clock announced step

theorem StepGiven.sameShape (h : d.StepGiven clock announced step) (hshape : d.SameShape d') :
    d'.StepGiven clock announced step := by
  cases h with
  | announced h => exact .announced (by rwa [hshape.sameFrame.incoming])
  | constant h hb hoperator =>
      obtain ⟨_, hb', hsame, _⟩ := hshape.symm.block? hb
      exact .constant (hshape.sameFrame.driverOf h) hb' (hsame.trans hoperator)

theorem FixedRate.sameShape (h : d.FixedRate clock start step) (hshape : d.SameShape d') :
    d'.FixedRate clock start step := by
  obtain ⟨b, announced, hb, hrate, hoperator, hgiven⟩ := h.block
  obtain ⟨b', hb', hsame, hrate', _⟩ := hshape.symm.block? hb
  exact ⟨hshape.clock.trans h.found, b', announced, hb', hrate'.trans hrate,
    hsame.trans hoperator, hgiven.sameShape hshape⟩

/-- The clock that a model gets is one of these. -/
theorem fixedRate_withClock {parent : BlockId} {stem : String}
    (hd : (d.withClock parent stem step start).WellFormed) (hparent : (d.block? parent).isSome)
    (hfound : (d.withClock parent stem step start).clock = .ok ⟨d.blocks.size⟩) :
    (d.withClock parent stem step start).FixedRate ⟨d.blocks.size⟩ start step := by
  have hclock := block?_withClock_clock hparent stem step start
  have hconstant := block?_withClock_constant hparent stem step start
  refine ⟨hfound, _, step, hclock, rfl, rfl, .constant ?_ hconstant rfl⟩
  generalize d.withClock parent stem step start = d' at hd hclock hconstant ⊢
  have hprimitive : d'.isComposite ⟨d.blocks.size + 1⟩ = false := by
    rw [isComposite, hconstant]
    rfl
  have hport : d'.port? (.input ⟨d.blocks.size⟩ 0) = some
      { name := clockStepInput, incoming := some (.output ⟨d.blocks.size + 1⟩ 0) } :=
    port?_eq (q := .input ⟨d.blocks.size⟩ 0) hclock
  have hends : Ends d'.incoming (.input ⟨d.blocks.size⟩ 0) (.output ⟨d.blocks.size + 1⟩ 0) :=
    .back (incoming_eq hport) (.here (hd.incoming_output hprimitive rfl))
  have hclosure := (hd.prevClosure_eq_ok_iff (by rw [hport]; rfl)).mpr hends
  have hsource : d'.isSource (.output ⟨d.blocks.size + 1⟩ 0) = true := by
    rw [isSource, hprimitive]
    rfl
  exact Except.bind_eq_ok.mpr ⟨_, hclosure, if_pos hsource⟩

end Diagram

namespace Simulation

variable [Scalar α] {s s' t t' : Simulation α ω} {clock : BlockId} {start step endTime : α}
  {tick : Tick α} {g : DependencyGraph} {parts : List (List (PortId × Sample α))} {n : Nat}

/-- The clock with which a run counts time always takes the same step, whether the model has one or
gets one. -/
inductive FixedRate (s : Simulation α ω) : α → α → Prop
  | own {clock : BlockId} {start step : α} (h : s.diagram.FixedRate clock start step) :
      FixedRate s start step
  | added {name : String} (h : s.diagram.clock = .error (.missingClock name)) :
      FixedRate s 0 s.settings.step

/-- What a constant has shown is its value. -/
def ConstantsShown (s : Simulation α ω) : Prop := ∀ id b value, s.diagram.block? id = some b →
  b.operator = .constant value → ∀ (k : Nat) x, s.diagram.sample? (.output id 0) k = some x →
    x.value = value

/-- A constant shows its value when it is due, and else shows it again. -/
theorem Iterated.constantsShown (h : Iterated s s' tick g.schedule parts) (hs : s.Sized)
    (hg : s.diagram.dependencies n = .ok g) (hshown : s.ConstantsShown) : s'.ConstantsShown := by
  intro id b value hb hoperator k x hx
  obtain ⟨b₀, hb₀, hsame, _⟩ := h.shape.block? hb
  have hearlier := hshown id b₀ value hb₀ (hsame.trans hoperator)
  by_cases hk : k = tick.iteration
  · subst hk
    have hnot := Diagram.not_needs_of_neededInputs hb (by rw [hoperator]; rfl)
      ((h.shape.dependencies n).trans hg)
    have hsatisfies := h.satisfies_of_not_needs hs hg hb hnot hx
    cases hdue : mustCompute b.rate tick.iteration tick.time with
    | true =>
        obtain ⟨values, hvalues, _, hsamples⟩ := hsatisfies.due hdue
        rw [hoperator] at hvalues
        cases hvalues
        cases hx.symm.trans (hsamples 0 value rfl)
        rfl
    | false =>
        obtain ⟨before, last, hbefore, hlast, hagain⟩ :=
          hsatisfies.held hdue 0 (Diagram.lt_length_of_sample? hb hx)
        cases hx.symm.trans hagain
        rw [h.sample?_of_ne hs (by omega)] at hlast
        exact hearlier before last hlast
  · rw [h.sample?_of_ne hs hk] at hx
    exact hearlier k x hx

/-! ### Runs in equal steps -/

/-- A simulation without events that has counted time from a start in equal steps. -/
structure Metered (s : Simulation α ω) (clock : BlockId) (start step : α) : Prop where
  underway : s.Underway
  rate : s.diagram.FixedRate clock start step
  timed : s.Timed ((List.range s.iteration).map (instant start step))
  told : ∀ (k : Nat) x, s.diagram.sample? (.output clock 0) k = some x →
    x.value = instant start step k
  constants : s.ConstantsShown

namespace Metered

/-- The step that the clock reads is always the same. -/
theorem stepAfter (h : s.Metered clock start step) {b : Block α} {announced : α} {k : Nat}
    (hb : s.diagram.block? clock = some b) (hgiven : s.diagram.StepGiven clock announced step)
    (hk : k < s.iteration) : s.stepAfter clock announced k = .ok step := by
  have hd := h.underway.wellFormed
  rw [stepAfter_unforced (by rw [hb]; rfl) h.underway.unforced]
  cases hgiven with
  | announced hnone =>
      rw [hnone]
      rfl
  | constant hdriver hc hoperator =>
      obtain ⟨_, _, hsource⟩ := hd.source_of_driverOf rfl hdriver
      obtain ⟨x, hx⟩ := h.underway.sized.exists_sample (hd.mem_computedPorts_iff.mpr hsource) hk
      rw [if_pos (hd.linked_of_driverOf (Diagram.mem_primitives_of_clock h.rate.found) hdriver),
        inputSample_total hdriver hx]
      exact congrArg Except.ok (h.constants _ _ _ hc hoperator k x hx)

/-- The next iteration comes after as many steps as iterations came before it. -/
theorem nextTick [Exact α] (h : s.Metered clock start step) : ∃ tick, s.nextTick = .ok tick ∧
    tick.time = instant start step s.iteration ∧ (s.iteration ≠ 0 → tick.step = step) := by
  obtain ⟨_, hfound, hrun⟩ := h.underway.clock
  cases h.rate.found.symm.trans hfound
  obtain ⟨b, announced, hb, _, hoperator, hgiven⟩ := h.rate.block
  cases hiteration : s.iteration with
  | zero =>
      exact ⟨_, nextTick_zero hiteration hrun hb hoperator,
        (Exact.instant_zero start step).symm, absurd rfl⟩
  | succ k =>
      have hk : k < s.iteration := by omega
      have hport := mem_computedPorts_of_clock h.underway.steady.fitted
        (Diagram.mem_primitives_of_clock hfound) hb hoperator
      obtain ⟨last, hlast⟩ := h.underway.sized.exists_sample hport hk
      refine ⟨_, nextTick_succ hrun (clockParameters_eq_ok.mpr ⟨b, hb, hoperator⟩) hiteration hlast
        (h.stepAfter hb hgiven hk), ?_, fun _ => rfl⟩
      rw [h.told k last hlast]
      exact Exact.instant_succ start step k

/-- Each step comes a step after the one before. -/
theorem of_step [Exact α] (h : s.Metered clock start step) (hok : Simulation.step s = .ok () s') :
    s'.Metered clock start step ∧ s'.iteration = s.iteration + 1 := by
  obtain ⟨tick, g, parts, hg, hiterated, hunderway⟩ := h.underway.step_ok hok
  obtain ⟨_, htick, htime, _⟩ := h.nextTick
  cases htick.symm.trans hiterated.next
  have hiteration : s'.iteration = s.iteration + 1 := by rw [hiterated.rest]
  have hrate := h.rate.sameShape hiterated.shape
  have hsized := h.underway.sized
  refine ⟨⟨hunderway, hrate, ?_, fun k x hx => ?_, hiterated.constantsShown hsized hg h.constants⟩,
    hiteration⟩
  · have htimed := hiterated.timed h.timed
    rw [hiteration]
    rwa [htime, ← List.map_singleton, ← List.map_append, ← List.range_succ] at htimed
  · by_cases hk : k = tick.iteration
    · subst hk
      obtain ⟨b, announced, hb, hunrated, hoperator, _⟩ := hrate.block
      have hprompt : s'.diagram.Prompt clock b := ⟨?_, hb, hunrated⟩
      · have htracks : s'.diagram.Tracks (.output clock 0) fun _ time => time :=
          .time hprompt (by rw [hoperator]; rfl)
        rw [hiterated.tracked hsized hg htracks hx, iteration_of_nextTick htick]
        exact htime
      · rintro rfl
        exact hunderway.wellFormed.root_notMem_primitives
          (Diagram.mem_primitives_of_clock hrate.found)
    · rw [hiterated.sample?_of_ne hsized hk] at hx
      exact h.told k x hx

end Metered

end Simulation

/-! ### Waiting -/

namespace Pacer

open Exact

variable [Scalar α] [ExactMagnitude α] {p : Pacer α} {start endTime time : α}

/-- A pacer that counts from the start of the clock, and for which the end is not too far away to
be waited for. -/
structure Allows (p : Pacer α) (start endTime : α) : Prop where
  origin : p.origin = start
  elapsed : 0 ≤ value p.elapsed
  soon : (endTime - start) * p.scale < endless

theorem value_decimal_nonneg (m : ℕ) (s : Bool) (e : ℕ) :
    0 ≤ value (OfScientific.ofScientific m s e : α) := by
  rw [ExactMagnitude.value_scientific, ← NNRat.cast_ofScientific]
  exact NNRat.cast_nonneg _

theorem Allows.pass (h : p.Allows start endTime) {seconds : α} (hseconds : 0 ≤ value seconds) :
    (p.pass seconds).Allows start endTime := by
  refine ⟨h.origin, ?_, h.soon⟩
  rw [Pacer.pass, value_add]
  exact add_nonneg h.elapsed hseconds

/-- What is due by the end, after the start, is due soon enough. -/
theorem Allows.due_lt (h : p.Allows start endTime) (hlater : start ≤ time) :
    value ((Scalar.lesser time endTime - p.origin) * p.scale) < value (endless : α) := by
  have hsoon := h.soon
  rw [lt_iff, value_mul, value_sub] at hsoon
  rw [le_iff] at hlater
  have hpos : (0 : ℝ) < value (endless : α) := by
    rw [endless, value_natCast]
    exact_mod_cast Nat.pow_pos (n := 64) Nat.two_pos
  rw [value_mul, value_sub, value_lesser, h.origin]
  rcases le_total (value time) (value endTime) with htime | htime
  · rw [min_eq_left htime]
    rcases le_total 0 (value p.scale) with hscale | hscale
    · nlinarith
    · nlinarith
  · rw [min_eq_right htime]
    exact hsoon

/-- To wait until then is possible, and the pacer goes on counting. -/
theorem Allows.wait (h : p.Allows start endTime) (hlater : start ≤ time) :
    ∃ outcome p', p.wait (Scalar.lesser time endTime) = .ok (outcome, p') ∧
      p'.Allows start endTime := by
  have hglanced : (p.pass glance).Allows start endTime := h.pass (value_decimal_nonneg 1 true 7)
  have hlateness : 0 ≤ value (lateness : α) := value_decimal_nonneg 5 true 5
  have hpause : 0 ≤ value (pause : α) := value_decimal_nonneg 1 true 2
  have hdue := hglanced.due_lt hlater
  have helapsed := hglanced.elapsed
  rw [Pacer.wait]
  generalize p.pass glance = p at hglanced hdue helapsed ⊢
  dsimp only
  rw [if_neg (by rw [le_iff, value_sub]; linarith)]
  split
  next hahead =>
    rw [lt_iff, value_zero, value_sub] at hahead
    refine ⟨_, _, rfl, hglanced.origin, ?_, hglanced.soon⟩
    rw [value_add]
    linarith
  next =>
    have hpassed : (p.pass (pause + lateness)).Allows start endTime :=
      hglanced.pass (by rw [value_add]; exact add_nonneg hpause hlateness)
    split
    next => exact ⟨_, _, rfl, hpassed.origin, hpassed.elapsed, hpassed.soon⟩
    next => exact ⟨_, _, rfl, hglanced.origin, helapsed, hglanced.soon⟩

end Pacer

namespace Simulation

open EStateM

section Alongside

variable [Scalar α] {s s' t t' : Simulation α ω} {clock : BlockId} {start step : α}

/-- Two simulations differ in nothing but their notices, who listens, what holds them back, and the
end time. -/
def Alongside (s t : Simulation α ω) : Prop :=
  ∃ journal, SameRun { s with editor := { s.editor with journal } } t

namespace Alongside

omit [Scalar α] in
theorem refl (s : Simulation α ω) : Alongside s s :=
  ⟨s.editor.journal, s.tracers, s.pacer, s.settings.endTime, rfl⟩

omit [Scalar α] in
theorem diagram (h : Alongside s t) : t.diagram = s.diagram := by
  obtain ⟨_, _, _, _, rfl⟩ := h
  rfl

omit [Scalar α] in
theorem trans {u : Simulation α ω} (h : Alongside s t) (h' : Alongside t u) : Alongside s u := by
  obtain ⟨_, _, _, _, rfl⟩ := h
  obtain ⟨journal, tracers, pacer, endTime, rfl⟩ := h'
  exact ⟨journal, tracers, pacer, endTime, rfl⟩

omit [Scalar α] in
theorem underway (h : Alongside s t) (hs : s.Underway) : t.Underway := by
  obtain ⟨_, _, _, _, rfl⟩ := h
  exact ⟨hs.wellFormed, hs.ported, hs.clock, ⟨hs.steady.fitted, hs.steady.graph, hs.steady.kept⟩,
    hs.sized, hs.current, hs.eventless, hs.unforced, hs.running, hs.started⟩

theorem metered (h : Alongside s t) (hs : s.Metered clock start step) :
    t.Metered clock start step := by
  have hunderway := h.underway hs.underway
  obtain ⟨_, _, _, _, rfl⟩ := h
  exact ⟨hunderway, hs.rate, hs.timed.congr rfl rfl, hs.told, hs.constants⟩

/-- Simulations alongside each other take the same step. -/
theorem of_step (h : Alongside s t) (hs : s.Underway) (hok : Simulation.step s = .ok () s') :
    ∃ t', Simulation.step t = .ok () t' ∧ Alongside s' t' := by
  obtain ⟨journal, hrun⟩ := h
  let u : Simulation α ω := { s with editor := { s.editor with journal } }
  have hquiet (event : StateEvent α ω) : event ∉ s.events := by
    rw [hs.eventless]
    exact List.not_mem_nil
  have haligned : s.Aligned :=
    { hs.steady with
      callbacks := fun event hmem => absurd hmem (hquiet event)
      sized := hs.sized
      clocked := .inl (hs.clock.imp fun _ h => h.1) }
  obtain ⟨fired, hadvance⟩ := discard_eq_ok.mp hok
  -- first with other notices
  have hechoes : Echoes Never s u := Echoes.never_iff.mpr ⟨journal, rfl⟩
  obtain ⟨u', hu', hsame⟩ := (Echoes.advance haligned (fun event hmem => absurd hmem (hquiet event))
    (Echoes.of_never hechoes)).exists_ok hadvance
  -- then for other listeners
  have hclock : u.diagram.HasClock := by
    obtain ⟨clock, hfound, _⟩ := hs.clock
    obtain ⟨b, _, _, hb, hoperator⟩ := Diagram.exists_block_of_clock hfound
    exact ⟨clock, Diagram.mem_primitives_of_clock hfound, b, hb, by rw [hoperator]; rfl⟩
  have hblind : Blind (Kin u) (advance : Run α ω (Option Nat)) :=
    Kin.advance (fun event hmem => absurd hmem (hquiet event)) hclock
  obtain ⟨t', ht', hrun', _⟩ := (hblind u t ⟨hrun, .refl u⟩).exists_ok hu'
  obtain ⟨journal', rfl⟩ := Echoes.never_iff.mp hsame
  exact ⟨t', discard_eq_ok.mpr ⟨fired, ht'⟩, journal', hrun'⟩

end Alongside

end Alongside

/-! ### Runs with an end -/

variable [Scalar α] [ExactMagnitude α] {s s' s₁ t t' : Simulation α ω} {clock : BlockId}
  {start step endTime : α}

omit [ExactMagnitude α] in
/-- To wait changes the pacer, and may give notice. -/
theorem pace_of_wait {tick : Tick α} {pacer pacer' : Pacer α} {outcome : Pace}
    (hpacer : s.pacer = some pacer) (hend : s.settings.endTime = some endTime)
    (htick : s.nextTick = .ok tick)
    (hwait : (pacer.pass Pacer.work).wait (Scalar.lesser tick.time endTime) =
      .ok (outcome, pacer')) :
    ∃ journal, pace s = .ok ()
      { s with editor := { s.editor with journal }, pacer := some pacer' } := by
  have hpace : pace s = (do
      if outcome = .yielded then edit (.report (.tooSlow (Scalar.lesser tick.time endTime)))
      modify fun s => { s with pacer := some pacer' } : Run α ω Unit) s := by
    rw [pace, bind_of_ok (get_eq_ok.mpr ⟨rfl, rfl⟩), hpacer]
    dsimp only
    rw [bind_of_ok (lift_eq_ok.mpr ⟨htick, rfl⟩), hend]
    exact bind_of_ok (lift_eq_ok.mpr ⟨hwait, rfl⟩)
  rw [hpace]
  split
  next => exact ⟨_, rfl⟩
  next => exact ⟨_, rfl⟩

/-- A run in equal steps that looks for its end in time only. -/
structure Bounded (s : Simulation α ω) (clock : BlockId) (start step endTime : α) : Prop where
  metered : s.Metered clock start step
  unconditional : s.condition = none
  ending : s.settings.endTime = some endTime
  allows : ∀ pacer, s.pacer = some pacer → pacer.Allows start endTime

namespace Bounded

theorem of_step (h : s.Bounded clock start step endTime) (hok : Simulation.step s = .ok () s') :
    s'.Bounded clock start step endTime ∧ s'.iteration = s.iteration + 1 := by
  obtain ⟨hmetered, hiteration⟩ := h.metered.of_step hok
  obtain ⟨_, _, _, _, hiterated, _⟩ := h.metered.underway.step_ok hok
  refine ⟨⟨hmetered, ?_, ?_, ?_⟩, hiteration⟩
  · rw [hiterated.rest]
    exact h.unconditional
  · rw [hiterated.rest]
    exact h.ending
  · rw [hiterated.rest]
    exact h.allows

/-- After each iteration, a run is to end exactly when it has taken as many steps as fit. -/
theorem isFinished (h : s.Bounded clock start step endTime) (hstep : 0 < step)
    (hgrid : Exact.OnGrid 8 step) (hspan : Exact.OnGrid 8 (endTime - start))
    (hbegun : s.iteration ≠ 0) :
    s.isFinished = .ok (decide (Exact.stepsUntil start step endTime ≤ s.iteration)) := by
  obtain ⟨tick, htick, htime, hlength⟩ := h.metered.nextTick
  have hiff := Exact.roundTo_left_lt_iff hstep hgrid hspan hbegun
  rw [Simulation.isFinished, h.unconditional, h.metered.underway.running, h.ending]
  refine Except.bind_eq_ok.mpr ⟨tick, htick, congrArg Except.ok ?_⟩
  rw [htime, hlength hbegun]
  exact decide_eq_decide.mpr hiff

/-- To hold a run back is possible, and changes nothing else. -/
theorem pace (h : s.Bounded clock start step endTime) (hstep : 0 < step) :
    ∃ s', Simulation.pace s = .ok () s' ∧ s'.Bounded clock start step endTime ∧
      Alongside s s' ∧ s'.iteration = s.iteration := by
  cases hpacer : s.pacer with
  | none =>
      refine ⟨s, bind_eq_ok.mpr ⟨s, s, rfl, ?_⟩, h, .refl s, rfl⟩
      rw [hpacer]
      rfl
  | some pacer =>
      obtain ⟨tick, htick, htime, _⟩ := h.metered.nextTick
      have hlater : start ≤ tick.time := by
        rw [htime, Exact.le_iff, Exact.value_instant]
        have := Exact.value_pos hstep
        linarith [mul_nonneg (Nat.cast_nonneg (α := ℝ) s.iteration) this.le]
      obtain ⟨outcome, pacer', hwait, hallows⟩ :=
        ((h.allows pacer hpacer).pass (Pacer.value_decimal_nonneg 1 true 5)).wait hlater
      obtain ⟨journal, hpace⟩ := pace_of_wait hpacer h.ending htick hwait
      have hsame : Alongside s
          { s with editor := { s.editor with journal }, pacer := some pacer' } :=
        ⟨journal, s.tracers, some pacer', s.settings.endTime, rfl⟩
      refine ⟨_, hpace, ⟨hsame.metered h.metered, h.unconditional, h.ending, ?_⟩, hsame, rfl⟩
      rintro _ ⟨⟩
      exact hallows

/-- Where a simulation can take a step, so can a run alongside it. -/
theorem pacedStep (h : t.Bounded clock start step endTime) (hstep : 0 < step)
    (hs : s.Underway) (hsame : Alongside s t) (hok : Simulation.step s = .ok () s') :
    ∃ t', Simulation.pacedStep t = .ok () t' ∧ t'.Bounded clock start step endTime ∧
      Alongside s' t' ∧ t'.iteration = t.iteration + 1 := by
  obtain ⟨t₁, hstepped, hsame₁⟩ := hsame.of_step hs hok
  obtain ⟨h₁, hiteration⟩ := h.of_step hstepped
  obtain ⟨t', hpaced, h', hsame', hiteration'⟩ := h₁.pace hstep
  exact ⟨t', bind_eq_ok.mpr ⟨(), t₁, hstepped, hpaced⟩, h', hsame₁.trans hsame',
    hiteration'.trans hiteration⟩

omit [ExactMagnitude α] in
theorem continueRun_of_isFinished {turns : Nat} (h : s.isFinished = .ok true) :
    Simulation.continueRun turns s = .ok true s := by
  cases turns with
  | zero => exact lift_eq_ok.mpr ⟨h, rfl⟩
  | succ turns =>
      rw [Simulation.continueRun, bind_of_ok (get_eq_ok.mpr ⟨rfl, rfl⟩),
        bind_of_ok (lift_eq_ok.mpr ⟨h, rfl⟩)]
      rfl

omit [ExactMagnitude α] in
theorem continueRun_of_pacedStep {turns : Nat} (h : s.isFinished = .ok false)
    (hstep : Simulation.pacedStep s = .ok () s') :
    Simulation.continueRun (turns + 1) s = Simulation.continueRun turns s' := by
  rw [Simulation.continueRun, bind_of_ok (get_eq_ok.mpr ⟨rfl, rfl⟩),
    bind_of_ok (lift_eq_ok.mpr ⟨h, rfl⟩)]
  exact bind_of_ok hstep

/-- A run that has begun goes on alongside a simulation until all the steps are taken. -/
theorem continueRun {left turns : Nat} (h : t.Bounded clock start step endTime) (hstep : 0 < step)
    (hgrid : Exact.OnGrid 8 step) (hspan : Exact.OnGrid 8 (endTime - start))
    (hbegun : t.iteration ≠ 0) (hleft : t.iteration + left = Exact.stepsUntil start step endTime)
    (hturns : left ≤ turns) (hs : s.Underway) (hsame : Alongside s t)
    (hok : takeSteps left s = .ok () s₁) :
    ∃ t₁, Simulation.continueRun turns t = .ok true t₁ ∧ Alongside s₁ t₁ ∧
      t₁.Bounded clock start step endTime ∧ t₁.iteration = Exact.stepsUntil start step endTime := by
  -- on the steps left; the run looks for its end before each of them
  induction left generalizing s t turns with
  | zero =>
      obtain ⟨_, rfl⟩ := pure_eq_ok.mp hok
      have hfinished := h.isFinished hstep hgrid hspan hbegun
      rw [decide_eq_true (by omega)] at hfinished
      exact ⟨t, continueRun_of_isFinished hfinished, hsame, h, hleft⟩
  | succ left ih =>
      obtain ⟨turns, rfl⟩ := Nat.exists_eq_add_of_le' (Nat.le_trans (Nat.le_add_left 1 left) hturns)
      obtain ⟨s₂, hstepped, hrest⟩ := hs.takeSteps_succ_ok.mp hok
      obtain ⟨_, _, _, _, _, hs₂⟩ := hs.step_ok hstepped
      obtain ⟨t₂, hpaced, h₂, hsame₂, hiteration⟩ := h.pacedStep hstep hs hsame hstepped
      have hfinished := h.isFinished hstep hgrid hspan hbegun
      rw [decide_eq_false (by omega)] at hfinished
      rw [continueRun_of_pacedStep hfinished hpaced]
      exact ih h₂ (by omega) (by omega) (by omega) hs₂ hsame₂ hrest

end Bounded

/-! ### Beginning -/

omit [ExactMagnitude α] in
/-- A run begins with the clock that it was said to have. -/
theorem FixedRate.clocked {d : Diagram α} (h : s.FixedRate start step)
    (hclocked : s.diagram.clearSignals.Clocked s.settings.step d clock) (hd : d.WellFormed)
    (hfound : d.clock = .ok clock) : d.FixedRate clock start step := by
  have hsame := s.diagram.clock_clearSignals
  cases hclocked with
  | found hown =>
      cases h with
      | own h =>
          cases h.found.symm.trans (hsame.symm.trans hown)
          exact h.sameShape s.diagram.sameShape_clearSignals
      | added hmissing => cases hmissing.symm.trans (hsame.symm.trans hown)
  | added hmissing _ hroot =>
      cases h with
      | own h => cases h.found.symm.trans (hsame.symm.trans hmissing)
      | added => exact Diagram.fixedRate_withClock hd hroot hfound

omit [ExactMagnitude α] in
/-- Before its first iteration a run has counted no steps. -/
theorem Eventless.metered (hs : s.Eventless) (hrate : s.FixedRate start step)
    (hok : begin s = .ok () s') : ∃ clock, s'.Metered clock start step ∧ s'.iteration = 0 := by
  obtain ⟨clock, hclocked, hfound, hunderway, _, hzero⟩ := hs.underway hok
  have hnone {p : PortId} {k : Nat} {x : Sample α} : s'.diagram.sample? p k ≠ some x := by
    rw [hunderway.sized.sample?_eq_none (by omega)]
    exact (Option.some_ne_none x).symm
  refine ⟨clock, ⟨hunderway, hrate.clocked hclocked hunderway.wellFormed hfound, ?_,
    fun _ _ hx => absurd hx hnone, fun _ _ _ _ _ _ _ hx => absurd hx hnone⟩, hzero⟩
  rw [hzero]
  exact hunderway.sized.timed_of_iteration_eq_zero hzero

omit [ExactMagnitude α] in
/-- To begin leaves the settings, and starts a pacer where they ask for it. -/
theorem Eventless.begin_rest (hs : s.Eventless) (hok : begin s = .ok () s') :
    s'.condition = s.condition ∧ s'.settings = s.settings ∧ ∃ tick, s'.nextTick = .ok tick ∧
      s'.pacer = (s.settings.realTime.map fun scale =>
        Pacer.start scale s.settings.overdueLimit tick.time).or s.pacer := by
  obtain ⟨_, s₁, hreset, hprepare⟩ := bind_eq_ok.mp hok
  obtain ⟨_, hsame, _, hcleared, _, hs₁⟩ := hs.reset_total
  cases hreset.symm.trans hsame
  obtain ⟨_, clock, s₂, _, s₃, s₄, s₅, hensure, _, hstart, htracers, hpacer, rfl⟩ :=
    prepare_eq_ok.mp hprepare
  obtain ⟨tick, htick, rfl, rfl⟩ := startClock_eq_ok.mp hstart
  cases (startPacer_apply _ _).symm.trans hpacer
  have hwellFormed : s₁.diagram.WellFormed :=
    hcleared ▸ s.diagram.sameShape_clearSignals.wellFormed hs.wellFormed
  obtain ⟨_, hs₂⟩ := ensureClock_keeps Edit.wellFormed_keptByBuilding hwellFormed hensure
  have hs₄ := startTracers_ok htracers
  generalize s₂.editor = editor, s₄.signalPorts = ports, s₄.tracers = tracers at hs₂ hs₄
  subst hs₂ hs₄
  have hs₁' : s₁.condition = s.condition ∧ s₁.settings = s.settings ∧ s₁.pacer = s.pacer := by
    rw [hs₁]
    exact ⟨rfl, rfl, rfl⟩
  obtain ⟨hcondition, hsettings, hpacer⟩ := hs₁'
  refine ⟨hcondition, hsettings, tick, htick, ?_⟩
  rw [← hsettings, ← hpacer]

/-- A run that is tied to the wall clock by a pacer of its own, if at all, begins with one that can
wait until the end. -/
theorem Eventless.bounded (hs : s.Eventless) (hrate : s.FixedRate start step)
    (hcondition : s.condition = none) (hend : s.settings.endTime = some endTime)
    (hown : s.settings.realTime = none → s.pacer = none)
    (hsoon : ∀ scale, s.settings.realTime = some scale →
      (endTime - start) * scale < Pacer.endless)
    (hok : begin s = .ok () s') :
    ∃ clock, s'.Bounded clock start step endTime ∧ s'.iteration = 0 := by
  obtain ⟨clock, hmetered, hzero⟩ := hs.metered hrate hok
  obtain ⟨hcondition', hsettings, tick, htick, hpacer⟩ := hs.begin_rest hok
  obtain ⟨_, hsame, htime, _⟩ := hmetered.nextTick
  cases htick.symm.trans hsame
  rw [hzero, Exact.instant_zero] at htime
  refine ⟨clock, ⟨hmetered, hcondition'.trans hcondition, by rw [hsettings]; exact hend,
    fun pacer hsome => ?_⟩, hzero⟩
  rw [hpacer] at hsome
  cases htied : s.settings.realTime with
  | none =>
      rw [htied, hown htied] at hsome
      cases hsome
  | some scale =>
      rw [htied] at hsome
      cases hsome
      exact ⟨htime, Exact.value_zero.ge, hsoon scale htied⟩

omit [ExactMagnitude α] in
theorem concluding_of_ok {β : Type} {action : Run α ω β} {x : β} (h : action s = .ok x s') :
    concluding action s = .ok x s'.dismiss := by
  rw [concluding, h]

/-- A run with a clock that always takes the same step ends after as many iterations as steps fit
until its end time, and at least one, if that many can be computed and the end is not too far away
to be waited for. These come at the start of the clock and a step after each other. -/
theorem run_takes_stepsUntil {turns : Nat} (hbuilt : s.diagram.clearSignals.Built)
    (hevents : s.events = []) (hunmoved : s.firstStart = none) (hcondition : s.condition = none)
    (hrate : s.FixedRate start step) (hstep : 0 < step)
    (hend : s.settings.endTime = some endTime) (hgrid : Exact.OnGrid 8 step)
    (hspan : Exact.OnGrid 8 (endTime - start))
    (hown : s.settings.realTime = none → s.pacer = none)
    (hsoon : ∀ scale, s.settings.realTime = some scale →
      (endTime - start) * scale < Pacer.endless)
    (hturns : Exact.stepsUntil start step endTime ≤ turns + 1)
    (hok : runSteps (Exact.stepsUntil start step endTime) s = .ok () s₁) :
    ∃ s', run turns s = .ok true s' ∧ s'.diagram = s₁.diagram ∧
      s'.iteration = Exact.stepsUntil start step endTime ∧
      s'.Synchronous
        ((List.range (Exact.stepsUntil start step endTime)).map (instant start step)) := by
  have hshape := s.diagram.sameShape_clearSignals.symm
  have hs : s.Eventless := ⟨hshape.wellFormed hbuilt.wellFormed, hshape.ported hbuilt.ported,
    hshape.fitted hbuilt.fitted, hevents, hunmoved⟩
  obtain ⟨_, s₀, hbegin, hconcluded⟩ := bind_eq_ok.mp hok
  obtain ⟨s₂, hsteps, rfl⟩ := concluding_ok hconcluded
  obtain ⟨clock, hbounded, hzero⟩ := hs.bounded hrate hcondition hend hown hsoon hbegin
  have hunderway := hbounded.metered.underway
  -- the first iteration is computed without looking for the end
  obtain ⟨left, hleft⟩ : ∃ left, Exact.stepsUntil start step endTime = left + 1 :=
    Nat.exists_eq_add_of_le' (Nat.le_max_left _ _)
  rw [hleft] at hsteps
  obtain ⟨s₃, hfirst, hrest⟩ := hunderway.takeSteps_succ_ok.mp hsteps
  obtain ⟨_, _, _, _, _, hs₃⟩ := hunderway.step_ok hfirst
  obtain ⟨t, hpaced, ht, hsame, hiteration⟩ :=
    hbounded.pacedStep hstep hunderway (.refl s₀) hfirst
  obtain ⟨t₁, hcontinued, hsame₁, ht₁, hall⟩ := ht.continueRun hstep hgrid hspan (by omega)
    (by omega) (show left ≤ turns by omega) hs₃ hsame hrest
  have hrun : (pacedStep >>= fun _ => continueRun turns : Run α ω Bool) s₀ = .ok true t₁ :=
    bind_eq_ok.mpr ⟨(), t, hpaced, hcontinued⟩
  refine ⟨t₁.dismiss, bind_eq_ok.mpr ⟨(), s₀, hbegin, concluding_of_ok hrun⟩, hsame₁.diagram, hall,
    ?_⟩
  have htimed : t₁.dismiss.Timed ((List.range t₁.iteration).map (instant start step)) :=
    ht₁.metered.timed.congr rfl rfl
  rw [hall] at htimed
  have hsized : t₁.dismiss.Sized := ht₁.metered.underway.sized
  exact htimed.inStep hsized

/-- A run until time one in steps of a tenth, a hundred times as fast as the wall clock. The model
has no clock of its own. -/
def tenths : Simulation ℚ Unit :=
  make (DiagramCall.modelWith "t")
    { Settings.standard with endTime := some 1, realTime := some (1 / 100) } ()

/-- Ten steps of a tenth fit until time one. -/
theorem stepsUntil_tenths : Exact.stepsUntil (0 : ℚ) tenths.settings.step 1 = 10 := by
  have hstep : Exact.value tenths.settings.step = (0.1 : ℝ) := Rat.cast_ofScientific 1 true 1
  have hend : Exact.value (1 : ℚ) = 1 := Rat.cast_one
  rw [Exact.stepsUntil, hstep, hend, Exact.value_zero]
  norm_num

theorem onGrid_tenth : Exact.OnGrid 8 tenths.settings.step := by
  have hstep : Exact.value tenths.settings.step = (0.1 : ℝ) := Rat.cast_ofScientific 1 true 1
  refine ⟨10000000, ?_⟩
  rw [hstep]
  norm_num

/-- That run takes ten steps, and not an eleventh at its very end. -/
theorem run_takes_stepsUntil_tenths : ∃ s', run 9 tenths = .ok true s' ∧ s'.iteration = 10 ∧
    s'.Synchronous ((List.range 10).map (instant 0 tenths.settings.step)) := by
  have hbuilt : tenths.diagram.clearSignals.Built := (DiagramCall.modelWith_built "t").clearSignals
  have hmissing : tenths.diagram.clock = .error (.missingClock "model") := by rfl
  have hspan : Exact.OnGrid 8 ((1 : ℚ) - 0) := by
    refine ⟨100000000, ?_⟩
    rw [Exact.value_sub, Exact.value_zero, show Exact.value (1 : ℚ) = 1 from Rat.cast_one]
    norm_num
  have hsoon : ∀ scale, tenths.settings.realTime = some scale →
      ((1 : ℚ) - 0) * scale < Pacer.endless := by
    rintro _ ⟨⟩
    decide +kernel
  have hok : runSteps 10 tenths = .ok () (runSteps 10 tenths).state :=
    EStateM.Result.eq_ok (by decide +kernel)
  rw [← stepsUntil_tenths] at hok
  have hturns : Exact.stepsUntil (0 : ℚ) tenths.settings.step 1 ≤ 9 + 1 := stepsUntil_tenths.le
  obtain ⟨s', hrun, _, hiteration, htimes⟩ := run_takes_stepsUntil hbuilt rfl rfl rfl
    (.added hmissing) (by decide +kernel) rfl onGrid_tenth hspan (fun huntied => by cases huntied)
    hsoon hturns hok
  rw [stepsUntil_tenths] at hiteration htimes
  exact ⟨s', hrun, hiteration, htimes⟩

end Simulation

end CausalBlocks
