import Mathlib.Data.List.Nodup
import CausalBlocks.Dependency.Graph
import CausalBlocks.Proofs.Outcome

/-!
# Dependency graphs built by calls

Every call on a dependency graph keeps both directions of its neighbour lists in
step, without repetitions and among the members only.
-/

namespace CausalBlocks

/-- A call that changes a dependency graph. -/
inductive GraphCall where
  | addMember (node : Node)
  | setDependency (dependent influencer : Node)
  | unsetDependency (dependent influencer : Node)
  | removeMember (node : Node)

/-- What a call answers. -/
def GraphCall.answer (α : Type) (g : DependencyGraph) :
    GraphCall → Except (Failure α) DependencyGraph
  | addMember node => g.addMember node
  | setDependency dependent influencer => g.setDependency dependent influencer
  | unsetDependency dependent influencer => g.unsetDependency dependent influencer
  | removeMember node => g.removeMember node

/-- The graph after a call. A failing one leaves it as it was. -/
def GraphCall.perform (α : Type) (g : DependencyGraph) (call : GraphCall) : DependencyGraph :=
  match call.answer α g with
  | .ok g' => g'
  | .error _ => g

namespace DependencyGraph

/-- The graph that calls make of the one without members, in order. -/
def ofCalls (α : Type) (calls : List GraphCall) : DependencyGraph :=
  calls.foldl (GraphCall.perform α) empty

variable {α : Type} {g g' : DependencyGraph} {node u v dependent influencer : Node}

/-! ### Members and entries -/

theorem entry?_node {e : DependencyEntry} (h : g.entry? node = some e) : e.node = node := by
  simpa using List.find?_some h

theorem entry?_eq_none_iff : g.entry? node = none ↔ node ∉ g.members := by
  simp [members, entry?]

theorem hasMember_iff : g.hasMember node = true ↔ node ∈ g.members := by
  rw [hasMember, ← not_iff_not, Bool.not_eq_true, Option.isSome_eq_false_iff, Option.isNone_iff_eq_none,
    entry?_eq_none_iff]

theorem hasDependency_iff : g.hasDependency u v = true ↔ v ∈ g.influencersOf u := by
  rw [hasDependency, List.contains_iff_mem]

theorem checkMember_eq_ok (h : g.checkMember (α := α) node = .ok ()) : node ∈ g.members := by
  rw [checkMember] at h
  split at h
  next hmember => exact hasMember_iff.mp hmember
  next => cases h

theorem influencersOf_of_notMem (h : node ∉ g.members) : g.influencersOf node = [] := by
  rw [influencersOf, entry?_eq_none_iff.mpr h]

/-! ### Changing one entry -/

section

variable {f : DependencyEntry → DependencyEntry} (hf : ∀ e, (f e).node = e.node)
include hf

theorem members_modifyEntry : (g.modifyEntry node f).members = g.members := by
  simp only [members, modifyEntry, List.map_map]
  refine List.map_congr_left fun e _ => ?_
  simp only [Function.comp_apply]
  split
  · exact hf e
  · rfl

theorem entry?_modifyEntry :
    entry? (g.modifyEntry node f) u = (g.entry? u).map fun e => if u = node then f e else e := by
  -- the search does not see the change, since it only looks at nodes
  have hnode : ((fun e : DependencyEntry => decide (e.node = u)) ∘ fun e =>
      if e.node = node then f e else e) = fun e => decide (e.node = u) := by
    funext e
    simp only [Function.comp_apply]
    split <;> simp [hf]
  rw [DependencyGraph.entry?, modifyEntry, List.find?_map, hnode, ← entry?]
  cases hentry : g.entry? u with
  | none => rfl
  | some e => simp [entry?_node hentry]

end

theorem influencersOf_modifyInfluencers (h : node ∈ g.members) (f : List Node → List Node) :
    (g.modifyEntry node fun e => { e with influencers := f e.influencers }).influencersOf u =
      if u = node then f (g.influencersOf u) else g.influencersOf u := by
  simp only [influencersOf]
  rw [entry?_modifyEntry]
  swap
  · exact fun _ => rfl
  cases hentry : g.entry? u with
  | none =>
      have hne : u ≠ node := fun heq => entry?_eq_none_iff.mp hentry (heq ▸ h)
      simp [hne]
  | some e => by_cases hu : u = node <;> simp [hu]

theorem influencersOf_modifyDependents (f : List Node → List Node) :
    (g.modifyEntry node fun e => { e with dependents := f e.dependents }).influencersOf u =
      g.influencersOf u := by
  simp only [influencersOf]
  rw [entry?_modifyEntry]
  swap
  · exact fun _ => rfl
  cases hentry : g.entry? u with
  | none => rfl
  | some e => simp only [Option.map_some]; split <;> rfl

theorem dependentsOf_modifyDependents (h : node ∈ g.members) (f : List Node → List Node) :
    (g.modifyEntry node fun e => { e with dependents := f e.dependents }).dependentsOf u =
      if u = node then f (g.dependentsOf u) else g.dependentsOf u := by
  simp only [dependentsOf]
  rw [entry?_modifyEntry]
  swap
  · exact fun _ => rfl
  cases hentry : g.entry? u with
  | none =>
      have hne : u ≠ node := fun heq => entry?_eq_none_iff.mp hentry (heq ▸ h)
      simp [hne]
  | some e => by_cases hu : u = node <;> simp [hu]

theorem dependentsOf_modifyInfluencers (f : List Node → List Node) :
    (g.modifyEntry node fun e => { e with influencers := f e.influencers }).dependentsOf u =
      g.dependentsOf u := by
  simp only [dependentsOf]
  rw [entry?_modifyEntry]
  swap
  · exact fun _ => rfl
  cases hentry : g.entry? u with
  | none => rfl
  | some e => simp only [Option.map_some]; split <;> rfl

/-! ### What each operation does -/

/-- The members and neighbours after an operation, each as a function of those
before. -/
structure Changes (g g' : DependencyGraph) (members : List Node → List Node)
    (influencers dependents : Node → List Node → List Node) : Prop where
  members : g'.members = members g.members
  influencers : ∀ u, g'.influencersOf u = influencers u (g.influencersOf u)
  dependents : ∀ u, g'.dependentsOf u = dependents u (g.dependentsOf u)

theorem addMember_changes (h : g.addMember (α := α) node = .ok g') :
    node ∉ g.members ∧ Changes g g' (· ++ [node]) (fun _ l => l) (fun _ l => l) := by
  rw [addMember] at h
  split at h
  next => cases h
  next hnot =>
    cases h
    have hnot : node ∉ g.members := fun hmem => hnot (hasMember_iff.mpr hmem)
    refine ⟨hnot, by simp [members], fun u => ?_, fun u => ?_⟩
    · simp only [influencersOf, entry?, List.find?_append]
      cases g.entries.find? fun e => e.node = u with
      | some e => rfl
      | none => by_cases hu : node = u <;> simp [hu]
    · simp only [dependentsOf, entry?, List.find?_append]
      cases g.entries.find? fun e => e.node = u with
      | some e => rfl
      | none => by_cases hu : node = u <;> simp [hu]

theorem setDependency_changes (h : g.setDependency (α := α) dependent influencer = .ok g') :
    dependent ∈ g.members ∧ influencer ∈ g.members ∧
      (influencer ∈ g.influencersOf dependent ∧ g' = g ∨
        influencer ∉ g.influencersOf dependent ∧ Changes g g' (fun l => l)
          (fun u l => if u = dependent then l ++ [influencer] else l)
          (fun u l => if u = influencer then l ++ [dependent] else l)) := by
  simp only [setDependency, Except.bind_eq_ok] at h
  obtain ⟨_, hdependent, _, hinfluencer, h⟩ := h
  have hdependent := checkMember_eq_ok hdependent
  have hinfluencer := checkMember_eq_ok hinfluencer
  refine ⟨hdependent, hinfluencer, ?_⟩
  split at h
  next hhas =>
    cases h
    exact .inl ⟨hasDependency_iff.mp hhas, rfl⟩
  next hhas =>
    cases h
    refine .inr ⟨fun hmem => hhas (hasDependency_iff.mpr hmem), ?_, fun u => ?_, fun u => ?_⟩
    · rw [members_modifyEntry, members_modifyEntry] <;> exact fun _ => rfl
    · rw [influencersOf_modifyDependents (· ++ [dependent]),
        influencersOf_modifyInfluencers hdependent (· ++ [influencer])]
    · rw [dependentsOf_modifyDependents _ (· ++ [dependent]),
        dependentsOf_modifyInfluencers (· ++ [influencer])]
      rwa [members_modifyEntry]
      exact fun _ => rfl

theorem unsetDependency_changes (h : g.unsetDependency (α := α) dependent influencer = .ok g') :
    Changes g g' (fun l => l)
      (fun u l => if u = dependent then l.filter (· ≠ influencer) else l)
      (fun u l => if u = influencer then l.filter (· ≠ dependent) else l) := by
  simp only [unsetDependency, Except.bind_eq_ok] at h
  obtain ⟨_, hdependent, _, hinfluencer, h⟩ := h
  have hdependent := checkMember_eq_ok hdependent
  have hinfluencer := checkMember_eq_ok hinfluencer
  cases h
  refine ⟨?_, fun u => ?_, fun u => ?_⟩
  · rw [members_modifyEntry, members_modifyEntry] <;> exact fun _ => rfl
  · rw [influencersOf_modifyDependents (·.filter (· ≠ dependent)),
      influencersOf_modifyInfluencers hdependent (·.filter (· ≠ influencer))]
  · rw [dependentsOf_modifyDependents _ (·.filter (· ≠ dependent)),
      dependentsOf_modifyInfluencers (·.filter (· ≠ influencer))]
    rwa [members_modifyEntry]
    exact fun _ => rfl

theorem strikeDependent_changes {us : List Node} (hus : ∀ v ∈ us, v ∈ g.members) (node : Node) :
    Changes g (g.strikeDependent us node) (fun l => l) (fun _ l => l)
      (fun u l => if u ∈ us then l.filter (· ≠ node) else l) := by
  induction us generalizing g with
  | nil => exact ⟨rfl, fun _ => rfl, fun _ => rfl⟩
  | cons v rest ih =>
      obtain ⟨hv, hrest⟩ := List.forall_mem_cons.mp hus
      let g₁ := g.modifyEntry v fun e => { e with dependents := e.dependents.filter (· ≠ node) }
      have hmembers : g₁.members = g.members := members_modifyEntry fun _ => rfl
      obtain ⟨hm, hi, hd⟩ := ih (g := g₁) fun u hu => hmembers ▸ hrest u hu
      refine ⟨hm.trans hmembers, fun u => (hi u).trans ?_, fun u => (hd u).trans ?_⟩
      · exact influencersOf_modifyDependents (·.filter (· ≠ node))
      · rw [show g₁.dependentsOf u = _ from
          dependentsOf_modifyDependents hv (·.filter (· ≠ node))]
        -- striking twice is striking once
        by_cases huv : u = v <;> by_cases hur : u ∈ rest <;> simp [huv, hur]

theorem strikeInfluencer_changes {us : List Node} (hus : ∀ v ∈ us, v ∈ g.members) (node : Node) :
    Changes g (g.strikeInfluencer us node) (fun l => l)
      (fun u l => if u ∈ us then l.filter (· ≠ node) else l) (fun _ l => l) := by
  induction us generalizing g with
  | nil => exact ⟨rfl, fun _ => rfl, fun _ => rfl⟩
  | cons v rest ih =>
      obtain ⟨hv, hrest⟩ := List.forall_mem_cons.mp hus
      let g₁ := g.modifyEntry v fun e => { e with influencers := e.influencers.filter (· ≠ node) }
      have hmembers : g₁.members = g.members := members_modifyEntry fun _ => rfl
      obtain ⟨hm, hi, hd⟩ := ih (g := g₁) fun u hu => hmembers ▸ hrest u hu
      refine ⟨hm.trans hmembers, fun u => (hi u).trans ?_, fun u => (hd u).trans ?_⟩
      · rw [show g₁.influencersOf u = _ from
          influencersOf_modifyInfluencers hv (·.filter (· ≠ node))]
        by_cases huv : u = v <;> by_cases hur : u ∈ rest <;> simp [huv, hur]
      · exact dependentsOf_modifyInfluencers (·.filter (· ≠ node))

/-- Dropping the entry of a node. -/
theorem dropEntry_changes (g : DependencyGraph) (node : Node) :
    Changes g ⟨g.entries.filter fun e => e.node ≠ node⟩ (·.filter (· ≠ node))
      (fun u l => if u = node then [] else l) (fun u l => if u = node then [] else l) := by
  have hentry : ∀ u, entry? ⟨g.entries.filter fun e => e.node ≠ node⟩ u =
      if u = node then none else g.entry? u := by
    intro u
    unfold entry?
    rw [List.find?_filter]
    split
    next hu => simp [hu]
    next hu =>
      congr 1
      funext e
      by_cases heq : e.node = u <;> simp [heq, hu]
  refine ⟨by simp [members, List.filter_map, Function.comp_def], fun u => ?_, fun u => ?_⟩
  · rw [influencersOf, hentry]
    by_cases hu : u = node <;> simp [hu, influencersOf]
  · rw [dependentsOf, hentry]
    by_cases hu : u = node <;> simp [hu, dependentsOf]

/-! ### The invariant -/

/-- The neighbour lists of distinct members mirror each other, do not repeat, and
hold members only. -/
structure Sound (g : DependencyGraph) : Prop where
  nodup : g.members.Nodup
  mirror : ∀ u v, v ∈ g.dependentsOf u ↔ u ∈ g.influencersOf v
  influencers_nodup : ∀ u, (g.influencersOf u).Nodup
  dependents_nodup : ∀ u, (g.dependentsOf u).Nodup
  influencers_mem : ∀ u v, v ∈ g.influencersOf u → v ∈ g.members

namespace Sound

theorem mem_of_influencer (h : v ∈ g.influencersOf u) : u ∈ g.members := by
  by_contra hnot
  rw [influencersOf_of_notMem hnot] at h
  cases h

theorem dependents_mem (hg : g.Sound) (h : v ∈ g.dependentsOf u) : v ∈ g.members :=
  mem_of_influencer ((hg.mirror u v).mp h)

theorem empty : Sound DependencyGraph.empty where
  nodup := List.nodup_nil
  mirror := by simp [DependencyGraph.empty, dependentsOf, influencersOf, entry?]
  influencers_nodup := by simp [DependencyGraph.empty, influencersOf, entry?]
  dependents_nodup := by simp [DependencyGraph.empty, dependentsOf, entry?]
  influencers_mem := by simp [DependencyGraph.empty, influencersOf, entry?]

theorem addMember (hg : g.Sound) (h : g.addMember (α := α) node = .ok g') : g'.Sound := by
  obtain ⟨hnot, hmembers, hinfluencers, hdependents⟩ := addMember_changes h
  refine ⟨?_, fun u v => ?_, fun u => ?_, fun u => ?_, fun u v => ?_⟩
  · rw [hmembers, List.nodup_append]
    exact ⟨hg.nodup, by simp, by rintro a ha b hb rfl; simp_all⟩
  · rw [hinfluencers, hdependents]
    exact hg.mirror u v
  · rw [hinfluencers]
    exact hg.influencers_nodup u
  · rw [hdependents]
    exact hg.dependents_nodup u
  · rw [hinfluencers, hmembers]
    exact fun hv => List.mem_append_left _ (hg.influencers_mem u v hv)

theorem setDependency (hg : g.Sound)
    (h : g.setDependency (α := α) dependent influencer = .ok g') : g'.Sound := by
  obtain ⟨hdependent, hinfluencer, ⟨_, rfl⟩ | ⟨hnew, hmembers, hinfluencers, hdependents⟩⟩ :=
    setDependency_changes h
  · exact hg
  -- the other direction of the neighbour lists has no such entry either
  have hnew' : dependent ∉ g.dependentsOf influencer := fun hmem => hnew ((hg.mirror _ _).mp hmem)
  have hsnoc : ∀ (l : List Node) (x : Node), l.Nodup → x ∉ l → (l ++ [x]).Nodup := by
    intro l x hl hx
    rw [List.nodup_append]
    exact ⟨hl, by simp, by rintro a ha b hb rfl; simp_all⟩
  refine ⟨hmembers ▸ hg.nodup, fun u v => ?_, fun u => ?_, fun u => ?_, fun u v => ?_⟩
  · have := hg.mirror u v
    rw [hinfluencers, hdependents]
    by_cases hu : u = influencer <;> by_cases hv : v = dependent <;> simp [hu, hv] <;> simp_all
  · rw [hinfluencers]
    split
    next hu => exact hsnoc _ _ (hg.influencers_nodup u) (hu ▸ hnew)
    next => exact hg.influencers_nodup u
  · rw [hdependents]
    split
    next hu => exact hsnoc _ _ (hg.dependents_nodup u) (hu ▸ hnew')
    next => exact hg.dependents_nodup u
  · rw [hinfluencers, hmembers]
    split
    next =>
      intro hv
      rcases List.mem_append.mp hv with hv | hv
      · exact hg.influencers_mem u v hv
      · exact List.mem_singleton.mp hv ▸ hinfluencer
    next => exact hg.influencers_mem u v

theorem unsetDependency (hg : g.Sound)
    (h : g.unsetDependency (α := α) dependent influencer = .ok g') : g'.Sound := by
  obtain ⟨hmembers, hinfluencers, hdependents⟩ := unsetDependency_changes h
  refine ⟨hmembers ▸ hg.nodup, fun u v => ?_, fun u => ?_, fun u => ?_, fun u v => ?_⟩
  · have := hg.mirror u v
    rw [hinfluencers, hdependents]
    by_cases hu : u = influencer <;> by_cases hv : v = dependent <;> simp [hu, hv] <;> simp_all
  · rw [hinfluencers]
    split
    next => exact (hg.influencers_nodup u).filter _
    next => exact hg.influencers_nodup u
  · rw [hdependents]
    split
    next => exact (hg.dependents_nodup u).filter _
    next => exact hg.dependents_nodup u
  · rw [hinfluencers, hmembers]
    split
    next => exact fun hv => hg.influencers_mem u v (List.mem_filter.mp hv).1
    next => exact hg.influencers_mem u v

/-- The lists of a member name all other lists that name it, so striking it from these strikes it
from all. -/
theorem removeMember_changes (hg : g.Sound) (h : g.removeMember (α := α) node = .ok g') :
    Changes g g' (·.filter (· ≠ node))
      (fun u l => if u = node then [] else l.filter (· ≠ node))
      (fun u l => if u = node then [] else l.filter (· ≠ node)) := by
  simp only [DependencyGraph.removeMember, Except.bind_eq_ok] at h
  obtain ⟨_, _, h⟩ := h
  cases h
  let g₁ := g.strikeDependent (g.influencersOf node) node
  obtain ⟨hmembers₁, hinfluencers₁, hdependents₁⟩ :=
    strikeDependent_changes (hg.influencers_mem node) node
  have hlisted : ∀ v ∈ g₁.dependentsOf node, v ∈ g₁.members := by
    intro v hv
    rw [hdependents₁] at hv
    rw [hmembers₁]
    split at hv
    next => exact hg.dependents_mem (List.mem_filter.mp hv).1
    next => exact hg.dependents_mem hv
  obtain ⟨hmembers₂, hinfluencers₂, hdependents₂⟩ := strikeInfluencer_changes hlisted node
  obtain ⟨hmembers₃, hinfluencers₃, hdependents₃⟩ :=
    dropEntry_changes (g₁.strikeInfluencer (g₁.dependentsOf node) node) node
  -- a list that does not name the node has nothing to be struck
  have hnone : ∀ l : List Node, node ∉ l → l.filter (· ≠ node) = l := fun l hl =>
    List.filter_eq_self.mpr fun v hv => decide_eq_true fun heq => hl (heq ▸ hv)
  have hnamed : ∀ u, u ≠ node → node ∈ g.influencersOf u → u ∈ g₁.dependentsOf node := by
    intro u hu hmem
    have hdependent := (hg.mirror node u).mpr hmem
    rw [hdependents₁]
    split
    · exact List.mem_filter.mpr ⟨hdependent, decide_eq_true hu⟩
    · exact hdependent
  refine ⟨?_, fun u => ?_, fun u => ?_⟩
  · rw [hmembers₃, hmembers₂, hmembers₁]
  · rw [hinfluencers₃, hinfluencers₂, hinfluencers₁]
    by_cases hu : u = node
    · rw [if_pos hu, if_pos hu]
    · rw [if_neg hu, if_neg hu]
      split
      next => rfl
      next hnot => exact (hnone _ fun hmem => hnot (hnamed u hu hmem)).symm
  · rw [hdependents₃, hdependents₂, hdependents₁]
    by_cases hu : u = node
    · rw [if_pos hu, if_pos hu]
    · rw [if_neg hu, if_neg hu]
      split
      next => rfl
      next hnot => exact (hnone _ fun hmem => hnot ((hg.mirror u node).mp hmem)).symm

theorem removeMember (hg : g.Sound) (h : g.removeMember (α := α) node = .ok g') : g'.Sound := by
  obtain ⟨hmembers, hinfluencers, hdependents⟩ := hg.removeMember_changes h
  refine ⟨hmembers ▸ hg.nodup.filter _, fun u v => ?_, fun u => ?_, fun u => ?_, fun u v => ?_⟩
  · have := hg.mirror u v
    rw [hinfluencers, hdependents]
    by_cases hu : u = node <;> by_cases hv : v = node <;> simp_all
  · rw [hinfluencers]
    split
    next => exact List.nodup_nil
    next => exact (hg.influencers_nodup u).filter _
  · rw [hdependents]
    split
    next => exact List.nodup_nil
    next => exact (hg.dependents_nodup u).filter _
  · rw [hinfluencers, hmembers]
    split
    next => exact fun hv => absurd hv (by simp)
    next =>
      intro hv
      obtain ⟨hv, hne⟩ := List.mem_filter.mp hv
      exact List.mem_filter.mpr ⟨hg.influencers_mem u v hv, hne⟩

theorem perform (hg : g.Sound) (call : GraphCall) : (call.perform α g).Sound := by
  rw [GraphCall.perform]
  cases hanswer : call.answer α g with
  | error failure => exact hg
  | ok g' =>
      cases call with
      | addMember node => exact hg.addMember hanswer
      | setDependency dependent influencer => exact hg.setDependency hanswer
      | unsetDependency dependent influencer => exact hg.unsetDependency hanswer
      | removeMember node => exact hg.removeMember hanswer

/-- Every graph that calls make is sound. -/
theorem ofCalls (α : Type) (calls : List GraphCall) : (DependencyGraph.ofCalls α calls).Sound :=
  List.foldlRecOn calls _ empty fun _ hg call _ => hg.perform call

end Sound

end DependencyGraph

end CausalBlocks
