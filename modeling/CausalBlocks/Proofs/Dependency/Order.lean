import CausalBlocks.Proofs.Diagram.Alike

/-!
# Schedules are in order

When a group of a schedule is computed, everything that its blocks need has been computed by an
earlier group, except that the blocks of a loop may need each other.
-/

namespace CausalBlocks

variable {α : Type} {d : Diagram α} {g : DependencyGraph} {iteration index : Nat} {id : BlockId}
  {b : Block α} {driver : PortId}

namespace DependencyGraph

/-- What a member of a component needs is in the component or in an earlier one. -/
theorem mem_earlier_or_mem (hg : g.Sound) {before after : List (List Node)} {component : List Node}
    {u v : Node} (hsplit : g.components = before ++ component :: after) (hu : u ∈ component)
    (hv : v ∈ g.influencersOf u) : v ∈ before.flatten ∨ v ∈ component := by
  obtain ⟨_, hflatten, hpairwise⟩ := components_spec hg
  have hmem : v ∈ g.components.flatten := hflatten.mem_iff.mpr (hg.influencers_mem _ _ hv)
  rw [hsplit] at hmem hpairwise
  rw [List.flatten_append, List.flatten_cons, List.mem_append, List.mem_append] at hmem
  refine hmem.imp_right fun hlater => hlater.resolve_right fun hafter => ?_
  -- a later component is not needed
  obtain ⟨later, hlater, hv'⟩ := List.mem_flatten.mp hafter
  have hnone := (List.pairwise_cons.mp (List.pairwise_append.mp hpairwise).2.1).1 later hlater
  exact hnone u hu v hv' (.single hv)

theorem mem_blocks_groupOf {component : List Node} :
    id ∈ (g.groupOf component).blocks ↔ .block id ∈ component := by
  rw [groupOf_blocks, List.mem_filterMap]
  constructor
  · rintro ⟨node, hnode, hid⟩
    cases node <;> cases hid
    exact hnode
  · exact fun hnode => ⟨_, hnode, rfl⟩

/-- A port that is scheduled is a member. -/
theorem port_mem_members (hg : g.Sound) {p : PortId} (h : .port p ∈ g.schedule) :
    .port p ∈ g.members := by
  obtain ⟨_, hflatten, _⟩ := components_spec hg
  obtain ⟨component, hcomponent, hgroup⟩ := List.mem_map.mp h
  refine hflatten.mem_iff.mp (List.mem_flatten.mpr ⟨component, hcomponent, ?_⟩)
  rw [groupOf.eq_def] at hgroup
  split at hgroup
  next =>
    cases hgroup
    exact List.mem_singleton_self _
  next => split at hgroup <;> cases hgroup
  next => cases hgroup

/-- A component in which a block is needed is a loop. -/
theorem eq_cycle_of_needed {component : List Node} {u : Node} (hu : u ∈ component)
    (hid : .block id ∈ component) (hneeds : .block id ∈ g.influencersOf u) :
    g.groupOf component = .cycle (component.filterMap Node.block?) := by
  refine (groupOf_represents component).cycle fun node hnode => ?_
  subst hnode
  cases List.mem_singleton.mp hu
  cases List.mem_singleton.mp hid
  exact ⟨id, rfl, hneeds⟩

end DependencyGraph

namespace Diagram

/-- The signal that a block of a group needs arises at an output of a group before it, or it is one
of those that the group gives its samples together. -/
theorem WellFormed.computed_before (hd : d.WellFormed) (hg : d.dependencies iteration = .ok g)
    {done rest : List Group} {group : Group} (hsplit : g.schedule = done ++ group :: rest)
    (hid : id ∈ group.blocks) (hb : d.block? id = some b)
    (hneeded : index ∈ b.operator.neededInputs iteration)
    (hdriver : d.driverOf (.input id index) = .ok driver) :
    driver ∈ done.flatMap d.groupOutputs ∨
      ∃ ids, group = .cycle ids ∧ driver.side = .output ∧ driver.block ∈ ids := by
  have hdescribes := DependencyGraph.describesNodes_of_dependencies hg
  obtain ⟨hcomponents, hflatten, _⟩ := DependencyGraph.components_spec hdescribes.sound
  obtain ⟨before, later, hcomponents', rfl, hlater⟩ := List.map_eq_append_iff.mp hsplit
  obtain ⟨component, after, rfl, rfl, rfl⟩ := List.map_eq_cons_iff.mp hlater
  rw [hcomponents'] at hcomponents
  have hcomponent := hcomponents component (by simp)
  have hu : .block id ∈ component := DependencyGraph.mem_blocks_groupOf.mp hid
  have hprimitive : id ∈ d.primitives := by
    have hmem := hcomponent.sublist.subset hu
    rw [hdescribes.members] at hmem
    simpa [nodes] using hmem
  have hneeds : d.nodeOf driver ∈ g.influencersOf (.block id) :=
    (mem_influencersOf_iff hg).mpr (.input hprimitive hb hneeded hdriver)
  have houtput := hd.mem_nodeOutputs (hd.source_of_driverOf rfl hdriver).2.2
  rcases DependencyGraph.mem_earlier_or_mem hdescribes.sound hcomponents' hu hneeds with hmem | hmem
  · refine .inl ?_
    obtain ⟨earlier, hearlier, hmem⟩ := List.mem_flatten.mp hmem
    refine List.mem_flatMap.mpr ⟨_, List.mem_map_of_mem hearlier, ?_⟩
    rw [DependencyGraph.groupOutputs_groupOf hdescribes (hcomponents earlier (by simp [hearlier]))]
    exact List.mem_flatMap.mpr ⟨_, hmem, houtput⟩
  · refine .inr ?_
    cases hnode : d.nodeOf driver with
    | port p =>
        -- an input of the model needs nothing, so it is in no component with a block
        rw [hnode] at hmem houtput
        rw [nodeOutputs] at houtput
        split at houtput
        next hinput =>
          have hp : p ∈ d.portIds d.root .input := by
            refine mem_portIds_iff.mpr ⟨hinput.1, hinput.2, ?_⟩
            rw [← List.mem_singleton.mp houtput]
            exact (hd.source_of_driverOf rfl hdriver).2.2.1
          have hsingle := DependencyGraph.eq_singleton_of_input_mem hdescribes hcomponent hp hmem
          rw [hsingle] at hu
          cases List.mem_singleton.mp hu
        next => cases houtput
    | block w =>
        rw [hnode] at hmem houtput hneeds
        obtain ⟨hblock, hside, _⟩ := mem_portIds_iff.mp houtput
        refine ⟨_, DependencyGraph.eq_cycle_of_needed hu hmem hneeds, hside, ?_⟩
        exact List.mem_filterMap.mpr ⟨_, hmem, by rw [hblock]; rfl⟩

end Diagram

end CausalBlocks
