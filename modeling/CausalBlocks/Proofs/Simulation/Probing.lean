import CausalBlocks.Proofs.Simulation.Echoes
import CausalBlocks.Proofs.Simulation.Synchrony

/-!
# Trial iterations

An iteration that is computed and taken back leaves the model as it was: every port that has
samples got one more, and the ports without samples have none to lose. So looking at a signal
at another time leaves no trace.
-/

namespace CausalBlocks

variable {α ω : Type}

namespace Simulation

variable {s s' s₁ s₂ : Simulation α ω} [Scalar α] {tick : Tick α} {groups : List Group}
  {parts : List (List (PortId × Sample α))}

/-- Taking an iteration back takes away the samples that it added, and no others. -/
theorem Iterated.rewind (h : Iterated s s' tick groups parts) (hs : s.Sized) :
    s'.diagram.rewind = s.diagram := by
  refine (h.shape.trans s'.diagram.sameShape_rewind).eq fun p => ?_
  rw [Diagram.history?_rewind, h.diagram]
  by_cases hcomputed : p ∈ s.diagram.computedPorts
  · obtain ⟨⟨_, x⟩, hmem, rfl⟩ := List.mem_map.mp (h.map_fst_perm.mem_iff.mpr hcomputed)
    rw [Diagram.history?_recordAll_of_mem h.nodup_map_fst hmem, Option.map_map]
    simp only [Function.comp_def, Array.pop_push, Option.map_id']
  · rw [Diagram.history?_recordAll_of_notMem
      fun hmem => hcomputed (h.map_fst_perm.mem_iff.mp hmem)]
    cases hhistory : s.diagram.history? p with
    | none => rfl
    | some history =>
        have hsize := hs p history hhistory
        rw [if_neg hcomputed] at hsize
        rw [Array.size_eq_zero_iff.mp hsize]
        rfl

/-! ### What is kept -/

section Kept

variable {n : Nat} {g : DependencyGraph}

omit [Scalar α] in
theorem currentGraph_keeps (h : currentGraph n s = .ok g s') : s' = { s with graph := some g } ∧
    (Renewing s.scheduler.policy n ∨ s.graph = none ∨ s.graph = some g) := by
  simp only [currentGraph, EStateM.bind_eq_ok, EStateM.get_eq_ok] at h
  obtain ⟨_, s, ⟨rfl, rfl⟩, h⟩ := h
  have hrenew (h : renewGraph n s = .ok g s') : s' = { s with graph := some g } := by
    simp only [renewGraph, EStateM.bind_eq_ok, model_eq_ok, EStateM.lift_eq_ok,
      EStateM.modify_eq_ok, EStateM.pure_eq_ok] at h
    obtain ⟨_, s, ⟨rfl, rfl⟩, g, s, ⟨_, rfl⟩, _, _, rfl, rfl, rfl⟩ := h
    rfl
  rw [Renewing]
  cases hgraph : s.graph with
  | none => exact ⟨hrenew (by simpa only [hgraph] using h), .inr (.inl rfl)⟩
  | some old =>
      cases hpolicy : s.scheduler.policy.recomputesAt n with
      | true => exact ⟨hrenew (by simpa only [hgraph, hpolicy] using h), .inl rfl⟩
      | false =>
          simp only [hgraph, hpolicy, EStateM.pure_eq_ok] at h
          obtain ⟨rfl, rfl⟩ := h
          exact ⟨by rw [← hgraph], .inr (.inr rfl)⟩

theorem obtain_keeps (scheduler : Scheduler) (g : DependencyGraph) (n : Nat) :
    (scheduler.obtain g n).2 = { scheduler with kept := some (scheduler.obtain g n).1 } ∧
      (Renewing scheduler.policy n ∨ scheduler.kept = none ∨
        scheduler.kept = some (scheduler.obtain g n).1) := by
  obtain ⟨policy, kept⟩ := scheduler
  rw [Renewing]
  cases kept with
  | none => exact ⟨rfl, .inr (.inl rfl)⟩
  | some groups => cases hpolicy : policy.recomputesAt n <;> simp [Scheduler.obtain, hpolicy]

omit [Scalar α] in
/-- What is kept after an iteration was there before, or was made anew because there was none or
because the policy asked for it. -/
theorem currentSchedule_keeps (h : currentSchedule n s = .ok groups s') : ∃ g,
    s' = { s with graph := some g, scheduler := { s.scheduler with kept := some groups } } ∧
      (Renewing s.scheduler.policy n ∨ (s.graph = none ∨ s.graph = some g) ∧
        (s.scheduler.kept = none ∨ s.scheduler.kept = some groups)) := by
  simp only [currentSchedule, EStateM.bind_eq_ok, EStateM.get_eq_ok, EStateM.modify_eq_ok,
    EStateM.pure_eq_ok] at h
  obtain ⟨g, s₁, hg, _, _, ⟨rfl, rfl⟩, _, s₂, rfl, rfl, rfl⟩ := h
  obtain ⟨rfl, hgraph⟩ := currentGraph_keeps hg
  obtain ⟨hnew, hkept⟩ := obtain_keeps s.scheduler g n
  refine ⟨g, by dsimp only; rw [hnew], ?_⟩
  rcases hgraph with hrenew | hgraph
  · exact .inl hrenew
  · exact hkept.imp id fun hkept => ⟨hgraph, hkept⟩

end Kept

/-- What the next iteration may need of an earlier one is there. -/
def Stocked (s : Simulation α ω) : Prop :=
  s.iteration = 0 ∨ s.graph.isSome ∧ s.scheduler.kept.isSome

theorem computeStep_rest (hs : s.Steady) (h : computeStep s = .ok () s') : ∃ g groups,
    s' = { s with
      editor := s'.editor, graph := some g, scheduler := { s.scheduler with kept := some groups },
      iteration := s.iteration + 1 } ∧
      (Renewing s.scheduler.policy s.iteration ∨ (s.graph = none ∨ s.graph = some g) ∧
        (s.scheduler.kept = none ∨ s.scheduler.kept = some groups)) := by
  obtain ⟨tick, _, _, hiterated⟩ := hs.computeStep h
  rw [computeStep_of_ok hiterated.next] at h
  obtain ⟨groups, s₁, hschedule, h⟩ := EStateM.bind_eq_ok.mp h
  obtain ⟨_, s₂, hgroups, hcount⟩ := EStateM.bind_eq_ok.mp h
  rw [EStateM.modify_eq_ok] at hcount
  obtain ⟨hcovers, _, _, _⟩ := currentSchedule_ok hs.graph hs.kept hschedule
  obtain ⟨g, hs₁, hkept⟩ := currentSchedule_keeps hschedule
  have hdiagram : s₁.diagram = s.diagram := by
    rw [hs₁]
    rfl
  rw [← hdiagram] at hcovers
  obtain ⟨_, hrecorded, _⟩ := computeGroups_ok (hdiagram ▸ hs.fitted) hcovers hgroups
  refine ⟨g, groups, ?_, hkept⟩
  rw [hcount, hrecorded.rest, hs₁]


omit [Scalar α] in
/-- Where the policy does not ask for it, nothing is made anew. -/
theorem Stocked.kept (hs : s.Stocked) {g : DependencyGraph} {groups : List Group}
    (h : Renewing s.scheduler.policy s.iteration ∨ (s.graph = none ∨ s.graph = some g) ∧
      (s.scheduler.kept = none ∨ s.scheduler.kept = some groups)) :
    Renewing s.scheduler.policy s.iteration ∨
      some g = s.graph ∧ some groups = s.scheduler.kept := by
  rcases hs with hzero | ⟨hgraph, hkept⟩
  · exact .inl (recomputesAt_of_lt_two _ (by omega))
  · refine h.imp_right fun ⟨hg, hgroups⟩ => ⟨?_, ?_⟩
    · exact (hg.resolve_left (Option.isSome_iff_ne_none.mp hgraph)).symm
    · exact (hgroups.resolve_left (Option.isSome_iff_ne_none.mp hkept)).symm

/-- The simulation after the tracers were told that an iteration begins. -/
def announced (s : Simulation α ω) (tick : Tick α) : Simulation α ω :=
  { s with tracers := s.tracers.send (.iteration s.iteration tick.time) }

/-- An attempt makes the simulation ready, tells the tracers and computes. -/
theorem attempt_eq_ok (h : attempt s = .ok () s') : ∃ s₀ tick s₁, ready s = .ok () s₀ ∧
    s₀.nextTick = .ok tick ∧ computeStep (s₀.announced tick) = .ok () s₁ ∧
      s' = { s₁ with time := tick.time } := by
  simp only [attempt, EStateM.bind_eq_ok, EStateM.get_eq_ok, EStateM.lift_eq_ok,
    EStateM.modify_eq_ok, Simulation.send] at h
  obtain ⟨_, s₀, hready, _, _, ⟨rfl, rfl⟩, tick, _, ⟨htick, rfl⟩, _, _, ⟨rfl, rfl⟩, _, s₁, rfl,
    _, s₂, hcompute, hs'⟩ := h
  exact ⟨_, tick, s₂, hready, htick, hcompute, hs'⟩

omit [Scalar α] in
theorem Steady.announced (hs : s.Steady) (tick : Tick α) : (s.announced tick).Steady :=
  ⟨hs.fitted, hs.graph, hs.kept⟩

/-- After a turn there is something to keep, or the clock has started anew. -/
theorem Aligned.stocked {fired : Option Nat} (hs : s.Aligned)
    (h : Simulation.advance s = .ok fired s') : s'.Stocked := by
  obtain ⟨tried, events, hattempt, _, ⟨_, hs'⟩ | ⟨_, _, _, _, _, hfired⟩⟩ := advance_ok hs h
  · obtain ⟨s₀, tick, s₁, hready, _, hcompute, htried⟩ := attempt_eq_ok hattempt
    obtain ⟨g, groups, hrest, _⟩ :=
      computeStep_rest ((hs.ready hready).aligned.toSteady.announced tick) hcompute
    right
    rw [hs', htried, hrest]
    exact ⟨rfl, rfl⟩
  · exact .inl hfired.fresh.iteration

theorem Reachable.stocked (h : s.Reachable) : s.Stocked := by
  induction h with
  | made _ hfresh _ => exact .inl hfresh.iteration
  | begun h hok => exact .inl (h.begin hok).2
  | advanced h hok _ => exact h.aligned.stocked hok
  | configured h hchange ih =>
      rw [hchange.rest]
      exact ih

/-! ### Computing and taking back -/

omit [Scalar α] in
theorem rewindStep_ok (h : rewindStep s = .ok () s') : s'.diagram = s.diagram.rewind ∧
    s' = { s with editor := s'.editor, iteration := s.iteration - 1 } := by
  cases h
  exact ⟨rfl, rfl⟩

/-- A simulation that can try out iterations. -/
structure Poised (s : Simulation α ω) : Prop extends Steady s where
  sized : s.Sized
  stocked : s.Stocked

omit [Scalar α] in
theorem Steady.forced (hs : s.Steady) (step : Option α) : Steady { s with forcedStep := step } :=
  ⟨hs.fitted, hs.graph, hs.kept⟩

omit [Scalar α] in
theorem Poised.forced (hs : s.Poised) (step : Option α) : Poised { s with forcedStep := step } :=
  ⟨hs.toSteady.forced step, hs.sized, hs.stocked⟩

/-- What is left of an iteration that was taken back: notices and what is kept. -/
structure Undone (s s' : Simulation α ω) : Prop where
  poised : s'.Poised
  echoes : Echoes Renewing s s'

namespace Poised

theorem undone (hs : s.Poised) (hcompute : computeStep s = .ok () s₁)
    (hrewind : rewindStep s₁ = .ok () s₂) : Undone s s₂ := by
  obtain ⟨tick, _, parts, hiterated⟩ := hs.toSteady.computeStep hcompute
  obtain ⟨g, groups, hrest, hkept⟩ := computeStep_rest hs.toSteady hcompute
  have hsteady := (Trial.rewindStep (hiterated.steady hs.toSteady) hrewind).steady
  obtain ⟨hdiagram, hback⟩ := rewindStep_ok hrewind
  rw [hiterated.rewind hs.sized] at hdiagram
  have heditor : s₂.editor = ⟨s.diagram, s₂.editor.journal⟩ := by
    rw [← hdiagram]
    rfl
  have hs₂ : s₂ = { s with
      editor := { s.editor with journal := s₂.editor.journal }, graph := some g,
      scheduler := { s.scheduler with kept := some groups } } := by
    rw [hback, heditor, hrest]
    rfl
  refine ⟨⟨hsteady, ?_, ?_⟩, s₂.editor.journal, some g, some groups, hs.stocked.kept hkept, hs₂⟩
  · rw [hs₂]
    exact hs.sized
  · right
    rw [hs₂]
    exact ⟨rfl, rfl⟩

/-- The same where the step to the iteration is imposed. -/
theorem undone_forced {step : α} (hs : s.Poised) (hcompute : computeForced step s = .ok () s₁)
    (hrewind : rewindStep s₁ = .ok () s₂) : Undone { s with forcedStep := none } s₂ := by
  rw [computeForced] at hcompute
  split at hcompute
  next s₃ hstep =>
    cases hcompute
    cases hrewind
    have hback : rewindStep s₃ = .ok () (rewindStep s₃).state := rfl
    have hundone := (hs.forced (some step)).undone hstep hback
    exact ⟨hundone.poised.forced none, hundone.echoes.forced none⟩
  next => cases hcompute

/-- A probe is an iteration that is taken back. -/
theorem probe {watch : Watch α} {lower time value : α} (hs : s.Poised)
    (h : probe watch lower time s = .ok value s') : Undone { s with forcedStep := none } s' := by
  simp only [Simulation.probe, EStateM.bind_eq_ok, model_eq_ok, EStateM.lift_eq_ok] at h
  obtain ⟨_, s₁, hcompute, _, s₁, ⟨rfl, rfl⟩, history, s₁, ⟨_, rfl⟩, _, s₂, hrewind, h⟩ := h
  cases hnewest : history.newest? with
  | some sample =>
      rw [hnewest] at h
      obtain ⟨_, rfl⟩ := EStateM.pure_eq_ok.mp h
      exact hs.undone_forced hcompute hrewind
  | none =>
      rw [hnewest] at h
      obtain ⟨_, _, _, h⟩ := EStateM.bind_eq_ok.mp h
      cases EStateM.throw_eq_ok.mp h

end Poised

theorem Reachable.poised (hs : s.Reachable) : s.Poised :=
  ⟨hs.aligned.toSteady, hs.aligned.sized, hs.stocked⟩

/-! ### Imposed steps -/

/-- Making ready concerns the clock, the tracers and the pacer. -/
theorem Aligned.ready_rest (hs : s.Aligned) (h : Simulation.ready s = .ok () s') :
    s' = { s with
      editor := s'.editor, clock := s'.clock, time := s'.time, signalPorts := s'.signalPorts,
      tracers := s'.tracers, pacer := s'.pacer, started := s'.started } := by
  obtain ⟨_, rfl⟩ | ⟨_, hprepare⟩ := ready_cases h
  · rfl
  · obtain ⟨_, s₁, hensure, _, hs'⟩ := prepare_rest hprepare
    rw [hs']
    rcases ensureClock_ok hs hensure with rfl | ⟨_, _, _, _, hrest⟩
    · rfl
    · rw [hrest]

/-- Attempting an iteration concerns that too, and what is kept of dependencies and schedules. -/
theorem Aligned.attempt_rest (hs : s.Aligned) (h : Simulation.attempt s = .ok () s') : ∃ g groups,
    s' = { s with
      editor := s'.editor, clock := s'.clock, time := s'.time, signalPorts := s'.signalPorts,
      tracers := s'.tracers, pacer := s'.pacer, started := s'.started, graph := some g,
      scheduler := { s.scheduler with kept := some groups }, iteration := s.iteration + 1 } := by
  obtain ⟨s₀, tick, s₁, hready, _, hcompute, rfl⟩ := attempt_eq_ok h
  obtain ⟨g, groups, hrest, _⟩ :=
    computeStep_rest ((hs.ready hready).aligned.toSteady.announced tick) hcompute
  refine ⟨g, groups, ?_⟩
  rw [hrest, announced, hs.ready_rest hready]

theorem Reachable.poised_of_ready (hs : s.Reachable) (h : Simulation.ready s = .ok () s') :
    s'.Poised := by
  have hprepared := hs.aligned.ready h
  refine ⟨hprepared.aligned.toSteady, hprepared.aligned.sized, ?_⟩
  rw [hs.aligned.ready_rest h]
  exact hs.stocked

theorem forcedStep_handleCrossing {first : Candidate α} {rest : List (Candidate α)} {index : Nat}
    (hs : s.Steady) (hcallbacks : ∀ event ∈ s.events, Callback.Fits event.callback)
    (h : handleCrossing first (first :: rest) s = .ok index s') : s'.forcedStep = none := by
  obtain ⟨located, time, s₁, s₂, s₃, s₄, s₅, s₆, hrewind, hlocate, _, hcompute, hs₄, rfl, hfire,
    hrestart⟩ := handleCrossing_steps h
  have hback := Trial.rewindStep hs hrewind
  have hlocated := (Trial.locateAll hback.steady hlocate).1
  have hcomputed := Trial.computeForced hlocated.steady hcompute
  have hevents : s₄.events = s.events := by
    rw [hs₄, ((hback.trans hlocated).trans hcomputed).rest]
  obtain ⟨hfitted, hs₆⟩ := fire_ok (s := { s₄ with events := _ })
    (by rw [hs₄]; exact hcomputed.steady.fitted)
    (forall_callback_modify (by rw [hevents]; exact hcallbacks)) hfire
  obtain ⟨_, _, _, hs'⟩ := restart_ok hfitted hrestart
  rw [hs', hs₆, hs₄]
  rw [computeForced] at hcompute
  split at hcompute
  next => cases hcompute; rfl
  next => cases hcompute

/-- No step stays imposed after a turn. -/
theorem Aligned.unforced {fired : Option Nat} (hs : s.Aligned) (hunforced : s.forcedStep = none)
    (h : Simulation.advance s = .ok fired s') : s'.forcedStep = none := by
  simp only [Simulation.advance, EStateM.bind_eq_ok, EStateM.ite_eq_ok, EStateM.pure_eq_ok] at h
  obtain ⟨_, tried, hattempt, answer, s₁, hprocess, h⟩ := h
  have htried : tried.forcedStep = none := by
    obtain ⟨_, _, hrest⟩ := hs.attempt_rest hattempt
    rw [hrest]
    exact hunforced
  have hs₁ : s₁.forcedStep = none := by
    obtain ⟨haligned, _⟩ := hs.attempt hattempt
    obtain ⟨candidates, s₂, hinspect, hprocess⟩ := EStateM.bind_eq_ok.mp hprocess
    obtain ⟨hs₂, hrearming, _⟩ := inspectEvents_ok hinspect
    cases candidates with
    | nil =>
        obtain ⟨_, rfl⟩ := EStateM.pure_eq_ok.mp hprocess
        rw [hs₂]
        exact htried
    | cons first rest =>
        obtain ⟨_, _, hhandle, hdone⟩ := EStateM.bind_eq_ok.mp hprocess
        obtain ⟨_, rfl⟩ := EStateM.pure_eq_ok.mp hdone
        exact forcedStep_handleCrossing (haligned.toSteady.inspected hinspect)
          (hrearming.callbacks haligned.callbacks) hhandle
  rcases h with ⟨_, _, _, hpublish, _, rfl⟩ | ⟨_, _, rfl⟩
  · rw [publishSample_ok hpublish]
    exact hs₁
  · exact hs₁

/-- No step is imposed between two turns of a run. -/
theorem Leads.unforced {ts : List (Turn α ω)} (h : Leads s ts s') (hs : s.Aligned)
    (hunforced : s.forcedStep = none) : s'.forcedStep = none := by
  induction h with
  | rest h => rw [h.rest, hunforced]
  | @turn s s' t ts hchange h _ ih =>
      have hbefore := hs.configured hchange
      refine ih (hbefore.advance h.advance) (hbefore.unforced ?_ h.advance)
      rw [hchange.rest]
      exact hunforced

/-! ### Probes -/

/-- What successful probes of any signals at any times lead to. -/
inductive Probed (s : Simulation α ω) : Simulation α ω → Prop
  | refl : Probed s s
  | probe {s₁ s₂ : Simulation α ω} {watch : Watch α} {lower time value : α} (h : Probed s s₁)
      (hok : probe watch lower time s₁ = .ok value s₂) : Probed s s₂

theorem Probed.undone (h : Probed s s') (hs : s.Poised) (hunforced : s.forcedStep = none) :
    Undone s s' := by
  induction h with
  | refl => exact ⟨hs, .refl _ s⟩
  | @probe s₁ s₂ _ _ _ _ _ hok ih =>
      have hprobe := ih.poised.probe hok
      have hsame : { s₁ with forcedStep := none } = s₁ := by
        obtain ⟨_, _, _, _, hs₁⟩ := ih.echoes
        rw [hs₁, ← hunforced]
      rw [hsame] at hprobe
      exact ⟨hprobe.poised, ih.echoes.trans hprobe.echoes⟩

/-- Nothing shows that a simulation has become another one: the model with all its samples and
the number of the iteration are the same, and what is computed next comes to the same. -/
structure Traceless (s s' : Simulation α ω) : Prop where
  diagram : s'.diagram = s.diagram
  iteration : s'.iteration = s.iteration
  step : EStateM.Agree (Echoes Never) (Echoes Renewing) (computeStep s) (computeStep s')
  forced : ∀ step,
    EStateM.Agree (Echoes Never) (Echoes Renewing) (computeForced step s) (computeForced step s')
  turn : (∀ event ∈ s.events, event.callback.Deaf) →
    EStateM.Agree (Echoes Never) (Echoes Renewing) (advance s) (advance s')

theorem Echoes.traceless (h : Echoes Renewing s s') (hs : s.Aligned) : Traceless s s' :=
  ⟨h.diagram, h.iteration, h.computeStep, h.computeForced, fun hdeaf => h.advance hs hdeaf⟩

/-- An iteration that is computed and taken back leaves no trace, at whatever time it is, and
neither does any number of probes. -/
theorem Reachable.undone_traceless (hs : s.Reachable) (hunforced : s.forcedStep = none) :
    (∀ s₁ s₂, computeStep s = .ok () s₁ → rewindStep s₁ = .ok () s₂ → Traceless s s₂) ∧
    (∀ step s₁ s₂, computeForced step s = .ok () s₁ → rewindStep s₁ = .ok () s₂ →
      Traceless s s₂) ∧
    ∀ s', Probed s s' → Traceless s s' := by
  have hsame : { s with forcedStep := none } = s := by rw [← hunforced]
  refine ⟨fun s₁ s₂ hcompute hrewind => ?_, fun step s₁ s₂ hcompute hrewind => ?_, fun s' h => ?_⟩
  · exact (hs.poised.undone hcompute hrewind).echoes.traceless hs.aligned
  · have hundone := hs.poised.undone_forced hcompute hrewind
    rw [hsame] at hundone
    exact hundone.echoes.traceless hs.aligned
  · exact (h.undone hs.poised hunforced).echoes.traceless hs.aligned

/-- Two turns of the model in which one block computes at every other iteration and another one
drives itself, then an iteration that is taken back, one at a time of its own, and two probes. -/
theorem undone_traceless_everyOtherLooped : ∃ s s₁ s₂ s₃ s₄ s' : Simulation ℚ Unit, s.Reachable ∧
    s.iteration = 2 ∧ computeStep s = .ok () s₁ ∧ rewindStep s₁ = .ok () s₂ ∧ Traceless s s₂ ∧
      computeForced (1 / 2) s = .ok () s₃ ∧ rewindStep s₃ = .ok () s₄ ∧ Traceless s s₄ ∧
        Probed s s' ∧ Traceless s s' := by
  let editor := (everyOtherLooped { diagram := .empty "m" [] [] }).state
  let made : Simulation ℚ Unit := make editor { Settings.standard with step := 1 } ()
  let begun := (begin made).state
  let first := (advance begun).state
  let s := (advance first).state
  let tried := (computeStep s).state
  let forced := (computeForced (1 / 2) s).state
  let probed := (probe ⟨"a", 0, .any⟩ 1 (3 / 2) s).state
  let again := (probe ⟨"t", 1, .any⟩ 1 (5 / 4) probed).state
  have hlawful : made.Lawful :=
    ⟨everyOtherLooped_fitted _ (Diagram.Built.empty "m" [] []).fitted, fun _ hmem => by cases hmem⟩
  obtain ⟨hbegun, hfirst, hsecond, htried, hforced, hprobed, hagain⟩ :
      (begin made).answer? = some () ∧ (advance begun).answer? = some none ∧
        (advance first).answer? = some none ∧ (computeStep s).answer? = some () ∧
          (computeForced (1 / 2) s).answer? = some () ∧
            (probe ⟨"a", 0, .any⟩ 1 (3 / 2) s).answer? = some (-3 / 2) ∧
              (probe ⟨"t", 1, .any⟩ 1 (5 / 4) probed).answer? = some (1 / 4) := by
    decide +kernel
  have hreachable : s.Reachable :=
    .advanced (.advanced (.begun hlawful (EStateM.Result.eq_ok hbegun))
      (EStateM.Result.eq_ok hfirst)) (EStateM.Result.eq_ok hsecond)
  obtain ⟨hstep, himposed, hprobes⟩ := hreachable.undone_traceless (by decide +kernel)
  have htried := EStateM.Result.eq_ok htried
  have hforced := EStateM.Result.eq_ok hforced
  have hprobes' : Probed s again :=
    (Probed.refl.probe (EStateM.Result.eq_ok hprobed)).probe (EStateM.Result.eq_ok hagain)
  exact ⟨s, tried, _, forced, _, again, hreachable, by decide +kernel, htried, rfl,
    hstep _ _ htried rfl, hforced, rfl, himposed _ _ _ hforced rfl, hprobes', hprobes _ hprobes'⟩

end Simulation

end CausalBlocks
