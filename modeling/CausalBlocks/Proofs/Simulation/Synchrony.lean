import CausalBlocks.Proofs.Simulation.Equations

/-!
# Synchronous samples

An iteration adds one sample with the time of its tick to every output of a block and
every input of the model, however the block was computed. Between two calls all these
ports therefore have a sample for each iteration since the clock started, and the
samples of one iteration carry one time.
-/

namespace CausalBlocks.Simulation

variable {α ω : Type} {s s' : Simulation α ω} {times : List α}

/-- The samples since the clock started have given times, one for each iteration. -/
structure Timed (s : Simulation α ω) (times : List α) : Prop where
  length : times.length = s.iteration
  computed : ∀ p ∈ s.diagram.computedPorts, ∀ h : History α, s.diagram.history? p = some h →
    h.times = times

/-- Where nothing has been computed since the clock started, there are no times. -/
theorem Sized.timed_of_iteration_eq_zero (hs : s.Sized) (hzero : s.iteration = 0) : s.Timed [] where
  length := hzero.symm
  computed p hp h hh := by
    have hsize := hs p h hh
    rw [if_pos hp, hzero] at hsize
    rw [Array.size_eq_zero_iff.mp hsize]
    rfl

/-- Only the model and the number of its iterations matter. -/
theorem Timed.congr (h : s.Timed times) (hdiagram : s'.diagram = s.diagram)
    (hiteration : s'.iteration = s.iteration) : s'.Timed times where
  length := h.length.trans hiteration.symm
  computed := by
    rw [hdiagram]
    exact h.computed

variable [Scalar α] {tick : Tick α} {groups : List Group}
  {parts : List (List (PortId × Sample α))}

/-- Every sample that an iteration adds carries the time of its tick. -/
theorem Iterated.stamped (h : Iterated s s' tick groups parts) {r : PortId × Sample α}
    (hr : r ∈ parts.flatten) : r.2.time = tick.time := by
  obtain ⟨_, _, mine, hr, _, hobeys⟩ := exists_of_mem_flatten h.fills hr
  exact hobeys.stamped r hr

theorem Iterated.timed (h : Iterated s s' tick groups parts) (hs : s.Timed times) :
    s'.Timed (times ++ [tick.time]) where
  length := by
    rw [List.length_append, List.length_singleton, hs.length, h.rest]
  computed p hp history' hp' := by
    rw [h.shape.computedPorts] at hp
    obtain ⟨⟨_, x⟩, hmem, rfl⟩ := List.mem_map.mp (h.map_fst_perm.mem_iff.mpr hp)
    rw [h.diagram, Diagram.history?_recordAll_of_mem h.nodup_map_fst hmem] at hp'
    obtain ⟨history, hhistory, rfl⟩ := Option.map_eq_some_iff.mp hp'
    have hstamped : x.time = tick.time := h.stamped hmem
    rw [History.times, Array.toList_push, List.map_append, List.map_singleton, hstamped,
      ← hs.computed _ hp history hhistory]
    rfl

omit [Scalar α] in
theorem Prepared.timed (h : Prepared s s') (hs : s.Timed times) : s'.Timed times := by
  rcases h.diagram with hsame | hzero
  · exact hs.congr hsame h.iteration
  · -- a clock came in while there were no samples
    have hnone : times = [] := by
      rw [← List.length_eq_zero_iff, hs.length, hzero]
    rw [hnone]
    exact h.aligned.sized.timed_of_iteration_eq_zero (h.iteration.trans hzero)

/-- A turn adds the time of its tick, or begins anew when an event fires. -/
theorem Timed.advance {fired : Option Nat} (hs : s.Timed times) (haligned : s.Aligned)
    (h : advance s = .ok fired s') : ∃ times', s'.Timed times' := by
  obtain ⟨tried, events, hattempt, _, ⟨_, hs'⟩ | ⟨_, _, _, _, _, hfired⟩⟩ := advance_ok haligned h
  · obtain ⟨s₀, tick, groups, parts, _, hprepared, hiterated, _⟩ := attempt_ok haligned hattempt
    refine ⟨times ++ [tick.time], (hiterated.timed (hprepared.timed hs)).congr ?_ ?_⟩ <;> rw [hs']
    rfl
  · exact ⟨[], (haligned.advance h).sized.timed_of_iteration_eq_zero hfired.fresh.iteration⟩

theorem Reachable.timed (h : s.Reachable) : ∃ times, s.Timed times := by
  induction h with
  | made h hfresh hstopped =>
      have haligned := (Reachable.made h hfresh hstopped).aligned
      exact ⟨[], haligned.sized.timed_of_iteration_eq_zero hfresh.iteration⟩
  | begun h hok =>
      obtain ⟨haligned, hzero⟩ := h.begin hok
      exact ⟨[], haligned.sized.timed_of_iteration_eq_zero hzero⟩
  | advanced h hok ih =>
      obtain ⟨times, htimes⟩ := ih
      exact htimes.advance h.aligned hok
  | configured _ hchange ih =>
      obtain ⟨times, htimes⟩ := ih
      refine ⟨times, htimes.congr hchange.diagram ?_⟩
      rw [hchange.rest]

/-- The outputs of primitives and the inputs of the model have one sample for each iteration,
all with the same times, and no other port has any. -/
structure Synchronous (s : Simulation α ω) (times : List α) : Prop where
  length : times.length = s.iteration
  outputs : ∀ id ∈ s.diagram.primitives, ∀ p ∈ s.diagram.portIds id .output,
    ∃ h : History α, s.diagram.history? p = some h ∧ h.times = times
  inputs : ∀ p ∈ s.diagram.portIds s.diagram.root .input,
    ∃ h : History α, s.diagram.history? p = some h ∧ h.times = times
  others : ∀ p (h : History α), s.diagram.history? p = some h →
    p ∉ s.diagram.portIds s.diagram.root .input →
      (∀ id ∈ s.diagram.primitives, p ∉ s.diagram.portIds id .output) → h = #[]

omit [Scalar α] in
/-- Where the samples are timed, they are synchronous. -/
theorem Timed.inStep (h : s.Timed times) (hs : s.Sized) : s.Synchronous times := by
  have hcomputed : ∀ p ∈ s.diagram.computedPorts,
      ∃ h : History α, s.diagram.history? p = some h ∧ h.times = times := by
    intro p hp
    obtain ⟨history, hhistory⟩ := Diagram.exists_history_of_computed hp
    exact ⟨history, hhistory, h.computed p hp history hhistory⟩
  refine ⟨h.length, fun id hid p hp => ?_, fun p hp => ?_, fun p h hp hinput houtput => ?_⟩
  · exact hcomputed p (List.mem_append_right _ (List.mem_flatMap.mpr ⟨id, hid, hp⟩))
  · exact hcomputed p (List.mem_append_left _ hp)
  · have hother : p ∉ s.diagram.computedPorts := by
      rw [Diagram.computedPorts, List.mem_append, List.mem_flatMap, not_or]
      refine ⟨hinput, ?_⟩
      rintro ⟨id, hid, hmem⟩
      exact houtput id hid hmem
    have hsize := hs p h hp
    rw [if_neg hother] at hsize
    exact Array.size_eq_zero_iff.mp hsize

/-- Whatever happened before, the samples are synchronous. -/
theorem Reachable.synchronous (hs : s.Reachable) : ∃ times, s.Synchronous times := by
  obtain ⟨times, htimes⟩ := hs.timed
  exact ⟨times, htimes.inStep hs.aligned.sized⟩

/-- A model in which one block computes at every other iteration and another one drives itself. -/
def everyOtherLooped : Edit ℚ Unit := do
  everyOther
  Edit.addAll ⟨0⟩ [("a", .adder 3)]
  Edit.connectAll ⟨0⟩ [("a", "a", none), ("a", "a", none), ("t", "a", none)]

theorem everyOtherLooped_fitted : Edit.Keeps Diagram.Fitted everyOtherLooped := by
  have hkept := (Block.fitted_lasting (α := ℚ)).keptByBuilding
  exact .bind everyOther_fitted fun _ => .bind (hkept.addAll _ _) fun _ => hkept.connectAll _ _

/-- Two turns of that model. -/
theorem synchronous_everyOtherLooped : ∃ s : Simulation ℚ Unit, s.Reachable ∧ s.iteration = 2 ∧
    ∃ times, s.Synchronous times := by
  let editor := (everyOtherLooped { diagram := .empty "m" [] [] }).state
  let made : Simulation ℚ Unit := make editor { Settings.standard with step := 1 } ()
  let begun := (begin made).state
  let first := (advance begun).state
  let second := (advance first).state
  have hlawful : made.Lawful :=
    ⟨everyOtherLooped_fitted _ (Diagram.Built.empty "m" [] []).fitted, fun _ hmem => by cases hmem⟩
  have hbegun : begin made = .ok () begun := EStateM.Result.eq_ok (by decide +kernel)
  have hfirst : advance begun = .ok none first := EStateM.Result.eq_ok (by decide +kernel)
  have hsecond : advance first = .ok none second := EStateM.Result.eq_ok (by decide +kernel)
  have hreachable : second.Reachable := .advanced (.advanced (.begun hlawful hbegun) hfirst) hsecond
  exact ⟨second, hreachable, by decide +kernel, hreachable.synchronous⟩

end CausalBlocks.Simulation
