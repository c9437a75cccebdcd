import CausalBlocks.Proofs.Simulation.Iteration

/-!
# Aligned simulations

Between two calls a simulation is aligned: the ports that iterations compute have
one sample for each iteration since the clock started, the others have none, and
what is kept of dependencies and schedules still belongs to the model.
-/

namespace CausalBlocks

variable {α ω : Type}

/-- A callback that leaves every primitive with the outputs of its operator. -/
def Callback.Fits (callback : Callback α ω) : Prop := ∀ time scene u scene',
  scene.editor.diagram.Fitted → callback time scene = .ok u scene' → scene'.editor.diagram.Fitted

namespace Simulation

/-- What is kept of dependencies and schedules belongs to the model. -/
structure Steady (s : Simulation α ω) : Prop where
  fitted : s.diagram.Fitted
  graph : ∀ g, s.graph = some g → s.diagram.Covers g.schedule
  kept : ∀ groups, s.scheduler.kept = some groups → s.diagram.Covers groups

/-- Nothing has been computed since the clock started. -/
structure Fresh (s : Simulation α ω) : Prop where
  unsampled : s.diagram.Unsampled
  iteration : s.iteration = 0
  graph : s.graph = none
  kept : s.scheduler.kept = none

/-- The number of samples of every port. -/
def Sized (s : Simulation α ω) : Prop := ∀ p (h : History α), s.diagram.history? p = some h →
  h.size = if p ∈ s.diagram.computedPorts then s.iteration else 0

/-- The state of a simulation between two calls. A model without a clock has not been
computed yet. -/
structure Aligned (s : Simulation α ω) : Prop extends Steady s where
  callbacks : ∀ event ∈ s.events, Callback.Fits event.callback
  sized : s.Sized
  clocked : (∃ id, s.diagram.clock = .ok id) ∨ s.Fresh ∧ s.started = false

variable {s s' s'' : Simulation α ω}

theorem Fresh.aligned (h : s.Fresh) (hfitted : s.diagram.Fitted)
    (hcallbacks : ∀ event ∈ s.events, Callback.Fits event.callback)
    (hclocked : (∃ id, s.diagram.clock = .ok id) ∨ s.started = false) : s.Aligned where
  fitted := hfitted
  graph g hg := by rw [h.graph] at hg; cases hg
  kept groups hgroups := by rw [h.kept] at hgroups; cases hgroups
  callbacks := hcallbacks
  sized p history hp := by
    rw [h.unsampled.history? hp, h.iteration]
    split <;> rfl
  clocked := hclocked.imp_right fun hstopped => ⟨h, hstopped⟩

/-! ### One iteration -/

variable [Scalar α] {tick : Tick α} {groups : List Group}
  {parts : List (List (PortId × Sample α))}

namespace Iterated

theorem shape (h : Iterated s s' tick groups parts) : s.diagram.SameShape s'.diagram := by
  rw [h.diagram]
  exact Diagram.sameShape_recordAll _ _

theorem map_fst_perm (h : Iterated s s' tick groups parts) :
    (parts.flatten.map Prod.fst).Perm s.diagram.computedPorts := by
  rw [map_fst_flatten h.fills]
  exact h.covers.outputs

theorem nodup_map_fst (h : Iterated s s' tick groups parts) :
    (parts.flatten.map Prod.fst).Nodup := h.map_fst_perm.nodup_iff.mpr h.covers.nodup

theorem steady (h : Iterated s s' tick groups parts) (hs : s.Steady) : s'.Steady where
  fitted := h.shape.fitted hs.fitted
  graph g hg := h.shape.covers (h.graph g hg)
  kept groups' hgroups := by
    rw [h.kept] at hgroups
    cases hgroups
    exact h.shape.covers h.covers

theorem sized (h : Iterated s s' tick groups parts) (hs : s.Sized) : s'.Sized := by
  intro p history' hp
  rw [h.shape.computedPorts, h.rest]
  rw [h.diagram] at hp
  -- a computed port gets exactly one sample, the others get none
  by_cases hcomputed : p ∈ s.diagram.computedPorts
  · rw [if_pos hcomputed]
    obtain ⟨⟨_, x⟩, hmem, rfl⟩ := List.mem_map.mp (h.map_fst_perm.mem_iff.mpr hcomputed)
    rw [Diagram.history?_recordAll_of_mem h.nodup_map_fst hmem] at hp
    obtain ⟨history, hhistory, rfl⟩ := Option.map_eq_some_iff.mp hp
    rw [Array.size_push, hs _ history hhistory, if_pos hcomputed]
  · rw [if_neg hcomputed]
    rw [Diagram.history?_recordAll_of_notMem
      fun hmem => hcomputed (h.map_fst_perm.mem_iff.mp hmem)] at hp
    rw [hs p history' hp, if_neg hcomputed]

end Iterated

theorem Steady.computeStep (hs : s.Steady) (h : computeStep s = .ok () s') :
    ∃ tick groups parts, Iterated s s' tick groups parts :=
  computeStep_ok hs.fitted hs.graph hs.kept h

theorem Aligned.iterated (hs : s.Aligned) {clock : BlockId} (hclock : s.diagram.clock = .ok clock)
    (h : Iterated s s' tick groups parts) : s'.Aligned where
  toSteady := h.steady hs.toSteady
  callbacks := by
    rw [h.rest]
    exact hs.callbacks
  sized := h.sized hs.sized
  clocked := .inl ⟨clock, by
    rw [← hclock]
    exact h.shape.clock⟩

end Simulation

end CausalBlocks
