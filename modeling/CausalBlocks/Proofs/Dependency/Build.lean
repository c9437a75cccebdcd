import CausalBlocks.Dependency.Build
import CausalBlocks.Proofs.Schedule.Components

/-!
# Schedules of a diagram

The dependencies of a diagram have its inputs, its primitives and its outputs as
members, and nothing influences an input. So the groups of the schedule compute
every primitive once, and every port that gets a sample in one of them.
-/

namespace CausalBlocks

variable {α : Type}

namespace Diagram

/-- The ports that get a sample when a node is computed. -/
def nodeOutputs (d : Diagram α) : Node → List PortId
  | .block id => d.portIds id .output
  | .port p => if p.block = d.root ∧ p.side = .input then [p] else []

/-- The ports that get a sample when a group is computed. -/
def groupOutputs (d : Diagram α) : Group → List PortId
  | .block id => d.nodeOutputs (.block id)
  | .port p => d.nodeOutputs (.port p)
  | .cycle ids => ids.flatMap fun id => d.nodeOutputs (.block id)

/-- The ports that get a sample at every iteration: the inputs of the model and the
outputs of the primitives. -/
def computedPorts (d : Diagram α) : List PortId :=
  d.portIds d.root .input ++ d.primitives.flatMap fun id => d.portIds id .output

/-- A list of groups computes everything once. -/
structure Covers (d : Diagram α) (groups : List Group) : Prop where
  outputs : (groups.flatMap d.groupOutputs).Perm d.computedPorts
  blocks : (groups.flatMap Group.blocks).Perm d.primitives
  nodup : d.computedPorts.Nodup

theorem mem_portIds_iff {d : Diagram α} {id : BlockId} {side : Side} {p : PortId} :
    p ∈ d.portIds id side ↔ p.block = id ∧ p.side = side ∧ (d.port? p).isSome := by
  obtain ⟨block, side', index⟩ := p
  rw [portIds, port?]
  constructor
  · intro h
    split at h
    next b hb =>
      obtain ⟨_, hi, heq⟩ := List.mem_map.mp h
      cases heq
      simpa [hb] using hi
    next => cases h
  · rintro ⟨rfl, rfl, hport⟩
    cases hb : d.block? block with
    | none => simp [hb] at hport
    | some b => simpa [hb] using hport

theorem nodup_portIds (d : Diagram α) (id : BlockId) (side : Side) :
    (d.portIds id side).Nodup := by
  rw [portIds]
  split
  next => exact List.nodup_range.map fun i j h => by cases h; rfl
  next => exact List.nodup_nil

/-- The nodes of a diagram. -/
def nodes (d : Diagram α) : List Node :=
  (d.portIds d.root .input).map Node.port ++ d.primitives.map Node.block ++
    (d.portIds d.root .output).map Node.port

theorem port_mem_nodes_iff {d : Diagram α} {p : PortId} (hp : p.side = .input) :
    .port p ∈ d.nodes ↔ p ∈ d.portIds d.root .input := by
  have houtput : p ∉ d.portIds d.root .output := fun hmem => by
    have hside := (mem_portIds_iff.mp hmem).2.1
    rw [hp] at hside
    cases hside
  simp [nodes, houtput]

theorem nodes_filterMap_block? (d : Diagram α) : d.nodes.filterMap Node.block? = d.primitives := by
  simp [nodes, List.filterMap_map, Function.comp_def, Node.block?]

theorem nodes_flatMap_nodeOutputs (d : Diagram α) :
    d.nodes.flatMap d.nodeOutputs = d.computedPorts := by
  have hinputs : (d.portIds d.root .input).flatMap (fun p => d.nodeOutputs (.port p)) =
      d.portIds d.root .input := by
    rw [List.flatMap_congr (g := fun p => [p]) fun p hp => ?_, List.flatMap_singleton']
    obtain ⟨hblock, hside, _⟩ := mem_portIds_iff.mp hp
    exact if_pos ⟨hblock, hside⟩
  have houtputs : (d.portIds d.root .output).flatMap (fun p => d.nodeOutputs (.port p)) = [] := by
    refine List.flatMap_eq_nil_iff.mpr fun p hp => ?_
    rw [nodeOutputs, (mem_portIds_iff.mp hp).2.1, if_neg (by simp)]
  rw [nodes, List.flatMap_append, List.flatMap_append, List.flatMap_map, List.flatMap_map,
    List.flatMap_map, hinputs, houtputs, List.append_nil]
  rfl

theorem nodup_computedPorts (d : Diagram α) (h : d.primitives.Nodup) : d.computedPorts.Nodup := by
  refine (d.nodup_portIds _ _).append (List.nodup_flatMap.mpr ⟨fun id _ => d.nodup_portIds id _, ?_⟩) ?_
  · refine h.imp fun hne p hp hp' => hne ?_
    rw [← (mem_portIds_iff.mp hp).1, (mem_portIds_iff.mp hp').1]
  · intro p hinput houtput
    obtain ⟨id, _, hp⟩ := List.mem_flatMap.mp houtput
    have hside := (mem_portIds_iff.mp hinput).2.1
    rw [(mem_portIds_iff.mp hp).2.1] at hside
    cases hside

end Diagram

namespace DependencyGraph

variable {d : Diagram α} {g : DependencyGraph}

/-- A graph over the nodes of a diagram in which nothing influences an input of the
model. -/
structure DescribesNodes (d : Diagram α) (g : DependencyGraph) : Prop where
  sound : g.Sound
  members : g.members = d.nodes
  inputs : ∀ p ∈ d.portIds d.root .input, g.influencersOf (.port p) = []

/-- Adding members makes a sound graph of them without dependencies. -/
theorem members_of_addMembers {nodes : List Node}
    (h : nodes.foldlM (addMember (α := α)) .empty = .ok g) :
    g.Sound ∧ g.members = nodes ∧ ∀ u, g.influencersOf u = [] := by
  -- members already added, with the rest of the list behind them
  let invariant (rest : List Node) (g : DependencyGraph) : Prop :=
    g.Sound ∧ g.members ++ rest = nodes ∧ ∀ u, g.influencersOf u = []
  have hstep : ∀ node rest (g g' : DependencyGraph), invariant (node :: rest) g →
      g.addMember (α := α) node = .ok g' → invariant rest g' := by
    rintro node rest g g' ⟨hsound, hmembers, hnone⟩ hadd
    obtain ⟨_, hmembers', hinfluencers, _⟩ := addMember_changes hadd
    refine ⟨hsound.addMember hadd, ?_, fun u => by rw [hinfluencers, hnone]⟩
    rw [hmembers', List.append_assoc, List.singleton_append, hmembers]
  obtain ⟨hsound, hmembers, hnone⟩ := Except.foldlM_ok hstep ⟨.empty, rfl, fun _ => rfl⟩ h
  exact ⟨hsound, by rw [← hmembers, List.append_nil], hnone⟩

theorem describesNodes_of_members
    (h : d.nodes.foldlM (addMember (α := α)) .empty = .ok g) : g.DescribesNodes d := by
  obtain ⟨hsound, hmembers, hnone⟩ := members_of_addMembers h
  exact ⟨hsound, hmembers, fun p _ => hnone _⟩

theorem DescribesNodes.setDependency (hg : g.DescribesNodes d) {g' : DependencyGraph}
    {dependent influencer : Node} (hinput : ∀ p ∈ d.portIds d.root .input, dependent ≠ .port p)
    (h : g.setDependency (α := α) dependent influencer = .ok g') : g'.DescribesNodes d := by
  obtain ⟨_, _, ⟨_, rfl⟩ | ⟨_, hmembers, hinfluencers, _⟩⟩ := setDependency_changes h
  · exact hg
  · refine ⟨hg.sound.setDependency h, by rw [hmembers, hg.members], fun p hp => ?_⟩
    rw [hinfluencers, if_neg (hinput p hp).symm, hg.inputs p hp]

theorem describesNodes_of_dependencies {iteration : Nat}
    (h : d.dependencies iteration = .ok g) : g.DescribesNodes d := by
  simp only [Diagram.dependencies, Diagram.dependenciesWith, Except.bind_eq_ok] at h
  obtain ⟨g₀, h₀, g₁, h₁, h₂⟩ := h
  have hg₀ : g₀.DescribesNodes d := describesNodes_of_members h₀
  -- first pass: only blocks depend on anything
  have hg₁ : g₁.DescribesNodes d := by
    refine Except.foldlM_ok (P := fun _ g => g.DescribesNodes d) ?_ hg₀ h₁
    intro id _ g g' hg hok
    obtain ⟨inputs, _, hok⟩ := Except.bind_eq_ok.mp hok
    refine Except.foldlM_ok (P := fun _ g => g.DescribesNodes d) ?_ hg hok
    intro input _ g g' hg hok
    obtain ⟨driver, _, hok⟩ := Except.bind_eq_ok.mp hok
    exact hg.setDependency (fun _ _ => Node.noConfusion) hok
  -- second pass: only outputs of the model do
  refine Except.foldlM_ok (P := fun outputs g => outputs ⊆ d.portIds d.root .output ∧
    g.DescribesNodes d) ?_ ⟨List.Subset.refl _, hg₁⟩ h₂ |>.2
  rintro output rest g g' ⟨houtputs, hg⟩ hok
  obtain ⟨source, _, hok⟩ := Except.bind_eq_ok.mp hok
  obtain ⟨houtput, hrest⟩ := List.cons_subset.mp houtputs
  refine ⟨hrest, ?_⟩
  split at hok
  next =>
    cases hok
    exact hg
  next =>
    refine hg.setDependency (fun p hp heq => ?_) hok
    cases heq
    have hinput := (Diagram.mem_portIds_iff.mp hp).2.1
    rw [(Diagram.mem_portIds_iff.mp houtput).2.1] at hinput
    cases hinput

/-- An input of the model is alone in its component. -/
theorem eq_singleton_of_input_mem (hg : g.DescribesNodes d) {component : List Node}
    (hcomponent : g.IsComponent component) {p : PortId} (hp : p ∈ d.portIds d.root .input)
    (hmem : .port p ∈ component) : component = [.port p] := by
  refine hcomponent.eq_singleton hg.sound hmem fun hneeds => ?_
  obtain ⟨w, hw, _⟩ := Relation.TransGen.head'_iff.mp hneeds
  rw [hg.inputs p hp] at hw
  cases hw

/-- The ports that a component computes are those of its nodes. -/
theorem groupOutputs_groupOf (hg : g.DescribesNodes d) {component : List Node}
    (hcomponent : g.IsComponent component) :
    d.groupOutputs (g.groupOf component) = component.flatMap d.nodeOutputs := by
  rw [groupOf.eq_def]
  split
  next p => simp [Diagram.groupOutputs]
  next id => split <;> simp [Diagram.groupOutputs]
  next hport _ =>
    -- in a cycle there is no input of the model, and other ports compute nothing
    have hnone : ∀ p, .port p ∈ component → d.nodeOutputs (.port p) = [] := by
      intro p hp
      rw [Diagram.nodeOutputs, if_neg]
      intro hinput
      have hmem := hcomponent.sublist.subset hp
      rw [hg.members, Diagram.port_mem_nodes_iff hinput.2] at hmem
      exact hport p (eq_singleton_of_input_mem hg hcomponent hmem hp)
    rw [Diagram.groupOutputs, List.filterMap_eq_flatMap_toList, List.flatMap_assoc]
    refine List.flatMap_congr fun node hnode => ?_
    cases node with
    | block id => exact List.flatMap_singleton _ _
    | port p => exact (hnone p hnode).symm

theorem schedule_covers (hg : g.DescribesNodes d) : d.Covers g.schedule := by
  obtain ⟨hcomponents, hflatten, _⟩ := components_spec hg.sound
  rw [hg.members] at hflatten
  refine ⟨?_, ?_, ?_⟩
  · have houtputs : g.schedule.flatMap d.groupOutputs =
        g.components.flatten.flatMap d.nodeOutputs := by
      rw [schedule, List.flatMap_map, ← List.flatMap_id, List.flatMap_assoc]
      exact List.flatMap_congr fun component hmem => groupOutputs_groupOf hg (hcomponents _ hmem)
    rw [houtputs, ← d.nodes_flatMap_nodeOutputs]
    exact hflatten.flatMap_right _
  · have hblocks := schedule_blocks_perm hg.sound
    rwa [hg.members, d.nodes_filterMap_block?] at hblocks
  · have hnodup := hg.sound.nodup
    rw [hg.members, Diagram.nodes] at hnodup
    exact d.nodup_computedPorts hnodup.of_append_left.of_append_right.of_map

end DependencyGraph

end CausalBlocks
