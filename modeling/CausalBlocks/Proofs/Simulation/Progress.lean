import CausalBlocks.Proofs.Simulation.Failing
import CausalBlocks.Proofs.Simulation.Past
import CausalBlocks.Proofs.Simulation.Twins

/-!
# The progress of time

The time of an iteration is a step after what the clock told in the iteration before. A clock that
is due tells the time of the iteration, and one that is not tells an earlier time again. So each
iteration comes a step after the last one at which the clock was due, whatever is due besides it.
While the clock is always due time goes on, but a clock with a rate can hold it up.
-/

namespace CausalBlocks

variable {ω : Type}

namespace Diagram

variable {d : Diagram ℚ} {tick : Tick ℚ} {clock : BlockId} {b : Block ℚ}

/-- What the clock tells at a tick: the time if it is due, else what it told before. -/
theorem Past.told (h : d.Past tick) (hclock : d.clock = .ok clock) (hb : d.block? clock = some b) :
    (mustCompute b.rate tick.iteration tick.time = true →
      d.sample? (.output clock 0) tick.iteration = some ⟨tick.time, tick.time⟩) ∧
    (mustCompute b.rate tick.iteration tick.time = false → ∃ before last,
      tick.iteration = before + 1 ∧ d.sample? (.output clock 0) before = some last ∧
        d.sample? (.output clock 0) tick.iteration = some ⟨tick.time, last.value⟩) := by
  obtain ⟨g, hg⟩ := h.obeyed
  obtain ⟨_, start, step, hb', hoperator⟩ := exists_block_of_clock hclock
  cases hb.symm.trans hb'
  have htells : b.operator.tellsTime = true := by rw [hoperator]; rfl
  have hsound := (DependencyGraph.describesNodes_of_dependencies hg.dependencies).sound
  have hnot := not_needs_of_tellsTime hb htells hg.dependencies
  obtain ⟨_, hb', hsatisfies⟩ := hg.equations clock (mem_primitives_of_clock hclock) fun ids hcycle =>
    DependencyGraph.notMem_of_cycle_mem_schedule hsound hnot hcycle
  cases hb.symm.trans hb'
  constructor
  · intro hdue
    obtain ⟨values, hvalues, _, hsamples⟩ := hsatisfies.due hdue
    exact hsamples 0 _ (Operator.compute_of_tellsTime htells hvalues).1
  · intro hidle
    obtain ⟨before, hbefore⟩ : ∃ before, tick.iteration = before + 1 := by
      refine Nat.exists_eq_succ_of_ne_zero fun hzero => ?_
      rw [hzero, mustCompute_zero] at hidle
      cases hidle
    -- the clock has the output that the time of the tick was read from
    obtain ⟨_, last, hsame, hlast, _⟩ := h.next before hbefore
    cases hclock.symm.trans hsame
    exact hsatisfies.held hidle 0 (lt_length_of_sample? hb hlast)

end Diagram

namespace Simulation

variable {s : Simulation ℚ ω} {times : List ℚ} {clock : BlockId} {b : Block ℚ} {k : Nat}

/-- The last iteration up to a given one at which a block with a rate is due, with its time. -/
structure LastDue (rate : Option ℚ) (times : List ℚ) (k j : Nat) (last : ℚ) : Prop where
  le : j ≤ k
  time : times[j]? = some last
  due : mustCompute rate j last = true
  later : ∀ i later, j < i → i ≤ k → times[i]? = some later → mustCompute rate i later = false

namespace LastDue

variable {rate : Option ℚ} {j j' : Nat} {last last' now : ℚ}

theorem of_due (hnow : times[k]? = some now) (hdue : mustCompute rate k now = true) :
    LastDue rate times k k now :=
  ⟨le_rfl, hnow, hdue, fun i _ hlt hle _ => by omega⟩

/-- An iteration at which the block is not due is not the last one. -/
theorem succ (h : LastDue rate times k j last) (hnow : times[k + 1]? = some now)
    (hidle : mustCompute rate (k + 1) now = false) : LastDue rate times (k + 1) j last := by
  refine ⟨Nat.le_succ_of_le h.le, h.time, h.due, fun i later hlt hle hlater => ?_⟩
  rcases Nat.le_succ_iff.mp hle with hle | rfl
  · exact h.later i later hlt hle hlater
  · cases hnow.symm.trans hlater
    exact hidle

theorem of_succ (h : LastDue rate times (k + 1) j last) (hle : j ≤ k) :
    LastDue rate times k j last :=
  ⟨hle, h.time, h.due, fun i later hlt hi => h.later i later hlt (Nat.le_succ_of_le hi)⟩

theorem unique (h : LastDue rate times k j last) (h' : LastDue rate times k j' last') :
    last' = last := by
  have hnot {i i' : Nat} {x x' : ℚ} (h : LastDue rate times k i x)
      (h' : LastDue rate times k i' x') : ¬ i < i' := fun hlt =>
    Bool.false_ne_true ((h.later i' x' hlt h'.le h'.time).symm.trans h'.due)
  obtain rfl : j = j' := Nat.le_antisymm (Nat.le_of_not_lt (hnot h' h)) (Nat.le_of_not_lt (hnot h h'))
  exact Option.some.inj (h'.time.symm.trans h.time)

end LastDue

/-- The samples of an iteration carry its time. -/
theorem Synchronous.time_of_sample? {α : Type} {s : Simulation α ω} {times : List α}
    (h : s.Synchronous times) {p : PortId} {x : Sample α} (hx : s.diagram.sample? p k = some x) :
    times[k]? = some x.time := by
  obtain ⟨history, hhistory, hx⟩ := Option.bind_eq_some_iff.mp hx
  have htimes : history.times = times := by
    by_contra hother
    have hempty : history = #[] := by
      refine h.others p history hhistory (fun hp => ?_) fun id hid hp => ?_
      · obtain ⟨_, hsame, htimes⟩ := h.inputs p hp
        cases hhistory.symm.trans hsame
        exact hother htimes
      · obtain ⟨_, hsame, htimes⟩ := h.outputs id hid p hp
        cases hhistory.symm.trans hsame
        exact hother htimes
    rw [hempty] at hx
    cases hx
  rw [← htimes, History.times, List.getElem?_map, Array.getElem?_toList, hx, Option.map_some]

section Clock

variable (hs : s.Reachable) (hunforced : s.forcedStep = none) (htimes : s.Synchronous times)
  (hclock : s.diagram.clock = .ok clock) (hb : s.diagram.block? clock = some b)
include hs hunforced htimes hclock hb

/-- The clock tells the time of the last iteration at which it was due. -/
theorem Reachable.told (hk : k < s.iteration) : ∃ now told j,
    s.diagram.sample? (.output clock 0) k = some ⟨now, told⟩ ∧ LastDue b.rate times k j told := by
  induction k with
  | zero =>
      obtain ⟨tick, hzero, hpast⟩ := hs.past hunforced 0 hk
      have hdue : mustCompute b.rate tick.iteration tick.time = true := by
        rw [hzero]
        exact mustCompute_zero _ _
      have htold := (hpast.told hclock hb).1 hdue
      rw [hzero] at htold hdue
      exact ⟨_, _, 0, htold, .of_due (htimes.time_of_sample? htold) hdue⟩
  | succ k ih =>
      obtain ⟨tick, hiteration, hpast⟩ := hs.past hunforced (k + 1) hk
      obtain ⟨hyes, hno⟩ := hpast.told hclock hb
      rw [hiteration] at hyes hno
      cases hdue : mustCompute b.rate (k + 1) tick.time with
      | true =>
          have htold := hyes hdue
          exact ⟨_, _, k + 1, htold, .of_due (htimes.time_of_sample? htold) hdue⟩
      | false =>
          obtain ⟨before, last, hbefore, hlast, htold⟩ := hno hdue
          cases hbefore
          obtain ⟨_, _, j, hsame, hlastDue⟩ := ih (by omega)
          cases hlast.symm.trans hsame
          exact ⟨_, _, j, htold, hlastDue.succ (htimes.time_of_sample? htold) hdue⟩

/-- An iteration comes a step after the last one at which the clock was due. -/
theorem Reachable.time_after_due {next : ℚ} (hnext : times[k + 1]? = some next) : ∃ j last step,
    LastDue b.rate times k j last ∧ s.diagram.StepAfter clock k step ∧ next = last + step := by
  have hk : k + 1 < s.iteration := by
    rw [← htimes.length]
    exact (List.getElem?_eq_some_iff.mp hnext).1
  obtain ⟨tick, hiteration, hpast⟩ := hs.past hunforced (k + 1) hk
  obtain ⟨_, last, hsame, hlast, htime, hstep⟩ := hpast.next k hiteration
  cases hclock.symm.trans hsame
  obtain ⟨_, told, j, hsample, hlastDue⟩ :=
    hs.told hunforced htimes hclock hb (Nat.lt_of_succ_lt hk)
  cases hlast.symm.trans hsample
  obtain ⟨now, _, _, hnow, _⟩ := hs.told hunforced htimes hclock hb hk
  have hstamp : now = tick.time := hpast.stamped _ _ (hiteration ▸ hnow)
  refine ⟨j, told, tick.step, hlastDue, hstep, ?_⟩
  rw [← htime, ← hstamp]
  exact Option.some.inj (hnext.symm.trans (htimes.time_of_sample? hnow))

end Clock

/-- Each iteration comes a step of the clock after the last one at which the clock was due. So where
the steps are positive an iteration comes a step after the one before exactly if the clock was due
at that one, and while the clock is due, as a clock without a rate always is, time goes on. -/
theorem Reachable.progresses (hs : s.Reachable) (hunforced : s.forcedStep = none)
    (htimes : s.Synchronous times) (hclock : s.diagram.clock = .ok clock)
    (hb : s.diagram.block? clock = some b)
    (hpositive : ∀ k step, k + 1 < times.length → s.diagram.StepAfter clock k step → 0 < step) :
    (∀ k next, times[k + 1]? = some next → ∃ j last step, LastDue b.rate times k j last ∧
      s.diagram.StepAfter clock k step ∧ next = last + step) ∧
    (∀ k now next step, times[k]? = some now → times[k + 1]? = some next →
      s.diagram.StepAfter clock k step →
        (next = now + step ↔ mustCompute b.rate k now = true)) ∧
    ((∀ k now, times[k]? = some now → mustCompute b.rate k now = true) →
      times.Pairwise (· < ·)) := by
  have hafter (k : Nat) (next : ℚ) (hnext : times[k + 1]? = some next) :=
    hs.time_after_due hunforced htimes hclock hb hnext
  have hstep : ∀ k now next step, times[k]? = some now → times[k + 1]? = some next →
      s.diagram.StepAfter clock k step →
        (next = now + step ↔ mustCompute b.rate k now = true) := by
    intro k now next step hnow hnext hstep
    obtain ⟨j, last, _, hlast, hsame, rfl⟩ := hafter k next hnext
    cases hstep.unique hsame
    rw [add_left_inj]
    constructor
    case mpr => exact fun hdue => (LastDue.of_due hnow hdue).unique hlast
    case mp =>
      rintro rfl
      rcases Nat.eq_or_lt_of_le hlast.le with rfl | hlt
      · exact hlast.due
      · -- else this iteration would come a step after the very time that it has
        obtain ⟨before, rfl⟩ := Nat.exists_eq_succ_of_ne_zero (Nat.ne_zero_of_lt hlt)
        obtain ⟨_, last', step', hlast', hstep', hlater⟩ := hafter before last hnow
        have hlength : before + 1 < times.length := (List.getElem?_eq_some_iff.mp hnow).1
        rw [(hlast.of_succ (Nat.le_of_lt_succ hlt)).unique hlast'] at hlater
        linarith [hpositive before step' hlength hstep']
  refine ⟨hafter, hstep, fun hdue => List.isChain_iff_pairwise.mp ?_⟩
  refine List.isChain_iff_getElem.mpr fun k hk => ?_
  have hnow : times[k]? = some times[k] := List.getElem?_eq_getElem (Nat.lt_of_succ_lt hk)
  have hnext : times[k + 1]? = some times[k + 1] := List.getElem?_eq_getElem hk
  obtain ⟨_, _, step, _, hafterStep, _⟩ := hafter k _ hnext
  have hpos := hpositive k step hk hafterStep
  rw [(hstep k _ _ step hnow hnext hafterStep).mpr (hdue k _ hnow)]
  linarith

/-- A model with a clock that is computed at every other iteration. -/
def gated : Edit ℚ Unit := do
  Edit.addAll ⟨0⟩ [("k", .clock 0 1), ("t", .time)]
  Edit.setRate ⟨1⟩ (some 2)

theorem gated_fitted : Edit.Keeps Diagram.Fitted gated :=
  .bind ((Block.fitted_lasting (α := ℚ)).keptByBuilding.addAll _ _) fun _ =>
    Edit.fitted_keptByTuning.setRate _ _

/-- Three turns of a run of that model. -/
def gatedTurns : EStateM.Result (Failure ℚ) (Simulation ℚ Unit) Unit :=
  (do begin; takeSteps 3 : Run ℚ Unit Unit)
    (make (gated { diagram := .empty "m" [] [] }).state { Settings.standard with step := 1 } ())

theorem gatedTurns_reachable : gatedTurns.state.Reachable := by
  have hturns : gatedTurns = .ok () gatedTurns.state := EStateM.Result.eq_ok (by decide +kernel)
  obtain ⟨_, _, hstart, hturns⟩ := EStateM.bind_eq_ok.mp hturns
  obtain ⟨_, hleads⟩ := Leads.of_takeSteps hturns
  refine hleads.reachable (.begun ⟨?_, fun _ hmem => by cases hmem⟩ hstart)
  exact gated_fitted { diagram := .empty "m" [] [] } (Diagram.Built.empty "m" [] []).fitted

/-- Only the first step leads to a later time. -/
theorem gatedTurns_synchronous : gatedTurns.state.Synchronous [0, 1, 1] := by
  obtain ⟨times, htimes⟩ := gatedTurns_reachable.synchronous
  obtain ⟨history, hhistory, hsame⟩ :=
    htimes.outputs ⟨2⟩ (by decide +kernel) (.output ⟨2⟩ 0) (by decide +kernel)
  obtain ⟨_, hhistory', htold⟩ : ∃ history, gatedTurns.state.diagram.history? (.output ⟨2⟩ 0) =
      some history ∧ History.times history = [0, 1, 1] := by decide +kernel
  cases hhistory.symm.trans hhistory'
  rwa [← htold, hsame]

theorem stepAfter_gated {k : Nat} {step : ℚ} :
    gatedTurns.state.diagram.StepAfter ⟨1⟩ k step ↔ step = 1 := by
  have hparameters : gatedTurns.state.clockParameters ⟨1⟩ = .ok (0, 1) :=
    Except.eq_ok_of_toOption (by decide +kernel)
  exact stepAfter_iff hparameters (by decide +kernel)

/-- The clock is due at the first of these turns only. -/
theorem progresses_gated : ∃ (s : Simulation ℚ Unit) (times : List ℚ) (clock : BlockId) (b : Block ℚ),
    s.Reachable ∧ s.forcedStep = none ∧ s.Synchronous times ∧ s.diagram.clock = .ok clock ∧
      s.diagram.block? clock = some b ∧
      (∀ k step, k + 1 < times.length → s.diagram.StepAfter clock k step → 0 < step) ∧
      times = [0, 1, 1] ∧
      (∀ k next, times[k + 1]? = some next → ∃ j last step, LastDue b.rate times k j last ∧
        s.diagram.StepAfter clock k step ∧ next = last + step) ∧
      (1 = (0 : ℚ) + 1 ↔ mustCompute b.rate 0 0 = true) ∧
      (1 = (1 : ℚ) + 1 ↔ mustCompute b.rate 1 1 = true) := by
  obtain ⟨b, hb⟩ : ∃ b, gatedTurns.state.diagram.block? ⟨1⟩ = some b :=
    Option.isSome_iff_exists.mp (by decide +kernel)
  have hclock : gatedTurns.state.diagram.clock = .ok ⟨1⟩ := Except.eq_ok_of_toOption (by decide +kernel)
  have hpositive : ∀ k step, k + 1 < [(0 : ℚ), 1, 1].length →
      gatedTurns.state.diagram.StepAfter ⟨1⟩ k step → 0 < step := by
    rintro k step - hstep
    rw [stepAfter_gated.mp hstep]
    exact one_pos
  obtain ⟨hafter, hnext, _⟩ := gatedTurns_reachable.progresses (by decide +kernel)
    gatedTurns_synchronous hclock hb hpositive
  exact ⟨_, _, ⟨1⟩, b, gatedTurns_reachable, by decide +kernel, gatedTurns_synchronous, hclock, hb,
    hpositive, rfl, hafter, hnext 0 0 1 1 rfl rfl (stepAfter_gated.mpr rfl),
    hnext 1 1 1 1 rfl rfl (stepAfter_gated.mpr rfl)⟩

/-- The steps of this clock are positive, but the third turn has the time of the second. -/
theorem not_progresses_gated : ∃ (s : Simulation ℚ Unit) (times : List ℚ) (clock : BlockId),
    s.Reachable ∧ s.forcedStep = none ∧ s.Synchronous times ∧ s.diagram.clock = .ok clock ∧
      (∀ k step, s.diagram.StepAfter clock k step → 0 < step) ∧ s.diagram.StepAfter clock 1 1 ∧
        times[1]? = some 1 ∧ times[2]? = some 1 ∧ ¬times.Pairwise (· < ·) := by
  have hclock : gatedTurns.state.diagram.clock = .ok ⟨1⟩ := Except.eq_ok_of_toOption (by decide +kernel)
  refine ⟨_, _, ⟨1⟩, gatedTurns_reachable, by decide +kernel, gatedTurns_synchronous, hclock,
    fun k step hstep => ?_, stepAfter_gated.mpr rfl, rfl, rfl, by decide⟩
  rw [stepAfter_gated.mp hstep]
  exact one_pos

end Simulation

end CausalBlocks
