import Mathlib.Data.List.Perm.Basic
import CausalBlocks.Proofs.Dependency.Graph
import CausalBlocks.Proofs.Schedule.Walk
import CausalBlocks.Schedule.Basic

/-!
# Schedules and strong components

The two depth-first passes find the strong components of a dependency graph, and
list each after everything that it needs. So a schedule has one group for each
component, and every block is in one of them, once.
-/

namespace CausalBlocks

/-- The blocks that a group computes. -/
def Group.blocks : Group → List BlockId
  | .block id => [id]
  | .port _ => []
  | .cycle ids => ids

namespace DependencyGraph

/-- One node needs another, directly or through others. -/
def Needs (g : DependencyGraph) : Node → Node → Prop :=
  Relation.TransGen fun u v => v ∈ g.influencersOf u

/-- Two nodes are the same, or need each other. -/
def SameComponent (g : DependencyGraph) (u v : Node) : Prop :=
  u = v ∨ g.Needs u v ∧ g.Needs v u

/-- A list holds the members of one strong component, in the order of the
members. -/
structure IsComponent (g : DependencyGraph) (component : List Node) : Prop where
  ne_nil : component ≠ []
  sublist : component.Sublist g.members
  mem_iff : ∀ u ∈ component, ∀ v ∈ g.members, v ∈ component ↔ g.SameComponent u v

/-- What a component is scheduled as: a single block that does not need itself as
that block, a single port as that port, and any other component as the cycle of
its blocks. -/
structure Represents (g : DependencyGraph) (component : List Node) (group : Group) : Prop where
  block : ∀ id, component = [.block id] → .block id ∉ g.influencersOf (.block id) →
    group = .block id
  port : ∀ id, component = [.port id] → group = .port id
  cycle : (∀ node, component = [node] → ∃ id, node = .block id ∧ node ∈ g.influencersOf node) →
    group = .cycle (component.filterMap Node.block?)

variable {g : DependencyGraph}

/-! ### The components -/

theorem leads_dependentsOf_iff (hg : g.Sound) {u v : Node} :
    Leads g.dependentsOf u v ↔ v = u ∨ g.Needs v u := by
  have hreverse : Leads g.dependentsOf u v ↔ Leads g.influencersOf v u :=
    ⟨Leads.reversed hg.mirror, Leads.reversed fun u v => (hg.mirror v u).symm⟩
  rw [hreverse]
  exact Relation.reflTransGen_iff_eq_or_transGen.trans (or_congr_left eq_comm)

theorem mutual_iff (hg : g.Sound) {u v : Node} :
    Mutual g.dependentsOf u v ↔ g.SameComponent u v := by
  rw [Mutual, leads_dependentsOf_iff hg, leads_dependentsOf_iff hg, SameComponent]
  constructor
  · rintro ⟨rfl | hvu, huv⟩
    · exact .inl rfl
    · rcases huv with rfl | huv
      · exact .inl rfl
      · exact .inr ⟨huv, hvu⟩
  · rintro (rfl | ⟨huv, hvu⟩)
    · exact ⟨.inl rfl, .inl rfl⟩
    · exact ⟨.inr hvu, .inr huv⟩

theorem finishingOrder_latestFirst (hg : g.Sound) :
    LatestFirst g.dependentsOf [] g.finishingOrder ∧ g.finishingOrder.Perm g.members := by
  have h := walksFrom_latestFirst hg.nodup (fun _ _ _ => hg.dependents_mem) g.members
    (Walk.Sound.start g.dependentsOf g.members) trivial (List.Subset.refl _)
  rwa [List.append_nil] at h

/-- The second pass meets the components one by one, each after those it needs. -/
theorem walks_components (hg : g.Sound) :
    (∀ met ∈ walksFrom g.influencersOf g.members g.finishingOrder, ∀ u ∈ met, ∀ v,
        v ∈ met ↔ g.SameComponent u v) ∧
      (walksFrom g.influencersOf g.members g.finishingOrder).flatten.Perm g.members ∧
      (walksFrom g.influencersOf g.members g.finishingOrder).Pairwise fun earlier later =>
        ∀ u ∈ earlier, ∀ v ∈ later, ¬g.Needs u v := by
  obtain ⟨horder, hperm⟩ := finishingOrder_latestFirst hg
  have hsweep : Sweep g.dependentsOf [] g.finishingOrder g.members := {
    distinct := hperm.nodup_iff.mpr hg.nodup
    nodup := hg.nodup
    subset := hperm.symm.subset
    whole := fun u v huv hu => huv.1.mem_of_closed (fun _ _ _ => hg.dependents_mem) hu
    past := fun _ hmem => absurd hmem List.not_mem_nil
    order := horder }
  obtain ⟨hclasses, hflatten, hpairwise⟩ := hsweep.walksFrom_components hg.mirror
  refine ⟨fun met hmet u hu v => (hclasses met hmet u hu v).trans (mutual_iff hg), hflatten, ?_⟩
  refine hpairwise.imp fun hnot u hu v hv hneeds => hnot u hu v hv ?_
  exact (leads_dependentsOf_iff hg).mpr (.inr hneeds)

/-- Listing what a walk met in the order of the members. -/
theorem filter_mem_perm (hg : g.Sound) {met : List Node} (hnodup : met.Nodup)
    (hmem : met ⊆ g.members) : (g.members.filter fun node => node ∈ met).Perm met := by
  refine (List.perm_ext_iff_of_nodup (hg.nodup.filter _) hnodup).mpr fun node => ?_
  simpa using @hmem node

theorem components_spec (hg : g.Sound) :
    (∀ component ∈ g.components, g.IsComponent component) ∧
      g.components.flatten.Perm g.members ∧
      g.components.Pairwise fun earlier later => ∀ u ∈ earlier, ∀ v ∈ later, ¬g.Needs u v := by
  obtain ⟨hclasses, hflatten, hpairwise⟩ := walks_components hg
  rw [components]
  generalize walksFrom g.influencersOf g.members g.finishingOrder = mets at *
  -- reordering and dropping empty lists changes none of the three facts
  have hmembers : ∀ met ∈ mets, met ⊆ g.members := fun met hmet u hu =>
    hflatten.subset (List.mem_flatten.mpr ⟨met, hmet, hu⟩)
  have hnodup : ∀ met ∈ mets, met.Nodup :=
    (List.nodup_flatten.mp (hflatten.nodup_iff.mpr hg.nodup)).1
  have hperm : ∀ met ∈ mets, (g.members.filter fun node => node ∈ met).Perm met := fun met hmet =>
    filter_mem_perm hg (hnodup met hmet) (hmembers met hmet)
  have hnonempty : (mets.filter fun met => !met.isEmpty).flatten = mets.flatten := by
    rw [List.flatten_filter_not_isEmpty]
  refine ⟨?_, ?_, ?_⟩
  · intro component hcomponent
    obtain ⟨met, hmet, rfl⟩ := List.mem_map.mp hcomponent
    obtain ⟨hmet, hne⟩ := List.mem_filter.mp hmet
    refine ⟨?_, List.filter_sublist, fun u hu v hv => ?_⟩
    · intro hnil
      obtain ⟨u, hu⟩ := List.exists_mem_of_ne_nil met (by simpa using hne)
      have hu := (hperm met hmet).mem_iff.mpr hu
      rw [hnil] at hu
      cases hu
    · have hu := (hperm met hmet).mem_iff.mp hu
      rw [(hperm met hmet).mem_iff]
      exact hclasses met hmet u hu v
  · have hall : ∀ met ∈ mets.filter fun met => !met.isEmpty,
        (g.members.filter fun node => node ∈ met).Perm met :=
      fun met hmet => hperm met (List.mem_filter.mp hmet).1
    have hflatMap := List.Perm.flatMap_left _ hall
    rw [List.flatMap_def, List.flatMap_id', hnonempty] at hflatMap
    exact hflatMap.trans hflatten
  · refine List.pairwise_map.mpr ((hpairwise.filter _).imp_of_mem ?_)
    intro earlier later hearlier hlater hnot u hu v hv
    have hearlier := hperm earlier (List.mem_filter.mp hearlier).1
    have hlater := hperm later (List.mem_filter.mp hlater).1
    exact hnot u (hearlier.mem_iff.mp hu) v (hlater.mem_iff.mp hv)

/-- A node that does not need itself is alone in its component. -/
theorem IsComponent.eq_singleton {component : List Node} (hcomponent : g.IsComponent component)
    (hg : g.Sound) {u : Node} (hu : u ∈ component) (hnot : ¬g.Needs u u) : component = [u] := by
  have hnodup := hg.nodup.sublist hcomponent.sublist
  refine List.perm_singleton.mp ?_
  refine (List.perm_ext_iff_of_nodup hnodup (List.nodup_singleton u)).mpr fun v => ?_
  rw [List.mem_singleton]
  refine ⟨fun hv => ?_, fun hv => hv ▸ hu⟩
  rcases (hcomponent.mem_iff u hu v (hcomponent.sublist.subset hv)).mp hv with heq | ⟨huv, hvu⟩
  · exact heq.symm
  · exact absurd (huv.trans hvu) hnot

/-! ### The groups -/

theorem groupOf_represents (component : List Node) :
    g.Represents component (g.groupOf component) where
  block := by
    rintro id rfl hnot
    rw [groupOf, if_neg (by rwa [hasDependency_iff])]
  port := by
    rintro id rfl
    rfl
  cycle := by
    intro hloop
    rw [groupOf.eq_def]
    split
    next id =>
      obtain ⟨_, hport, _⟩ := hloop _ rfl
      cases hport
    next id =>
      obtain ⟨_, _, hself⟩ := hloop _ rfl
      rw [if_pos (hasDependency_iff.mpr hself)]
      rfl
    next => rfl

theorem groupOf_blocks (component : List Node) :
    (g.groupOf component).blocks = component.filterMap Node.block? := by
  rw [groupOf.eq_def]
  split
  next => rfl
  next id => split <;> rfl
  next => rfl

/-- A block that does not need itself is in no loop of the schedule. -/
theorem notMem_of_cycle_mem_schedule (hg : g.Sound) {id : BlockId} {ids : List BlockId}
    (hnot : ¬g.Needs (.block id) (.block id)) (hcycle : .cycle ids ∈ g.schedule) : id ∉ ids := by
  intro hid
  obtain ⟨component, hmem, hgroup⟩ := List.mem_map.mp hcycle
  have hblocks : ids = component.filterMap Node.block? := by
    rw [← groupOf_blocks (g := g), hgroup]
    rfl
  rw [hblocks] at hid
  obtain ⟨node, hnode, hblock⟩ := List.mem_filterMap.mp hid
  cases node with
  | port p => cases hblock
  | block id' =>
      cases hblock
      have hcomponent := (components_spec hg).1 component hmem
      have hsingle := hcomponent.eq_singleton hg hnode hnot
      have hrepresents : g.groupOf component = .block id :=
        (groupOf_represents component).block id hsingle fun hself => hnot (.single hself)
      cases hgroup.symm.trans hrepresents

theorem schedule_blocks_perm (hg : g.Sound) :
    (g.schedule.flatMap Group.blocks).Perm (g.members.filterMap Node.block?) := by
  have hblocks : g.schedule.flatMap Group.blocks =
      g.components.flatten.filterMap Node.block? := by
    rw [schedule, List.flatMap_map, List.filterMap_flatten, List.flatMap_def]
    simp only [groupOf_blocks]
  rw [hblocks]
  exact (components_spec hg).2.1.filterMap _

/-- A schedule has one group for each strong component of the graph, and each
after the groups of everything that its nodes need. Every block is in one group,
once. All neighbours are members, so none is looked up in vain. -/
theorem schedule_ofCalls (α : Type) (calls : List GraphCall) :
    let g := ofCalls α calls
    g.members.Nodup ∧
      (∀ u, ∀ v ∈ g.influencersOf u ++ g.dependentsOf u, v ∈ g.members) ∧
      (∃ components : List (List Node),
        (∀ component ∈ components, g.IsComponent component) ∧
        components.flatten.Perm g.members ∧
        (∀ i j (hi : i < components.length) (hj : j < components.length), i ≠ j →
          ∀ u ∈ components[i], ∀ v ∈ components[j], g.Needs u v → j < i) ∧
        List.Forall₂ g.Represents components g.schedule) ∧
      ∀ id, .block id ∈ g.members → (g.schedule.flatMap Group.blocks).count id = 1 := by
  intro g
  have hg : g.Sound := .ofCalls α calls
  obtain ⟨hcomponents, hperm, hpairwise⟩ := components_spec hg
  refine ⟨hg.nodup, ?_, ⟨g.components, hcomponents, hperm, ?_, ?_⟩, ?_⟩
  · intro u v hv
    rcases List.mem_append.mp hv with hv | hv
    · exact hg.influencers_mem u v hv
    · exact hg.dependents_mem hv
  · -- the list is ordered already, so only the other order has to be excluded
    intro i j hi hj hne u hu v hv hneeds
    by_contra hle
    have hlt : i < j := by omega
    exact List.pairwise_iff_getElem.mp hpairwise i j hi hj hlt u hu v hv hneeds
  · rw [schedule, List.forall₂_map_right_iff]
    exact List.forall₂_same.mpr fun component _ => groupOf_represents component
  · intro id hid
    have hnodup : (g.members.filterMap Node.block?).Nodup := by
      refine hg.nodup.filterMap ?_
      rintro (u | u) (v | v) w hu hv <;> simp_all [Node.block?]
    rw [(schedule_blocks_perm hg).count_eq]
    exact List.count_eq_one_of_mem hnodup (List.mem_filterMap.mpr ⟨_, hid, rfl⟩)

end DependencyGraph

end CausalBlocks
