import Mathlib.Data.Set.Insert
import CausalBlocks.Proofs.Dependency.Graph

/-!
# Dependency graphs as relations

A dependency graph stands for a relation: its members in order, and the pairs of a dependent with
what it needs. Each call does to the graph what it does to the relation, and refuses what the
relation refuses. So the neighbour lists of a graph that calls make never hold more or less than
the relation says.
-/

namespace CausalBlocks

/-- Nodes in the order of their addition, and pairs of a dependent with an influencer. -/
structure NodeRelation where
  nodes : List Node
  pairs : Set (Node × Node)

namespace NodeRelation

/-- The relation without nodes. -/
def empty : NodeRelation := ⟨[], ∅⟩

variable {α : Type}

/-- Refuses a node that is not there. -/
def check (r : NodeRelation) (node : Node) : Except (Failure α) Unit :=
  if node ∈ r.nodes then .ok () else .error (.notMember node.text)

/-- What a call makes of the relation. -/
def answer (α : Type) (r : NodeRelation) : GraphCall → Except (Failure α) NodeRelation
  | .addMember node =>
    if node ∈ r.nodes then .error (.alreadyMember node.text)
    else .ok { r with nodes := r.nodes ++ [node] }
  | .setDependency dependent influencer => do
    r.check dependent
    r.check influencer
    return { r with pairs := insert (dependent, influencer) r.pairs }
  | .unsetDependency dependent influencer => do
    r.check dependent
    r.check influencer
    return { r with pairs := r.pairs \ {(dependent, influencer)} }
  | .removeMember node => do
    r.check node
    return { nodes := r.nodes.filter (· ≠ node)
             pairs := {pair ∈ r.pairs | pair.1 ≠ node ∧ pair.2 ≠ node} }

/-- The relation after a call. One that it refuses leaves it as it was. -/
def perform (α : Type) (r : NodeRelation) (call : GraphCall) : NodeRelation :=
  match r.answer α call with
  | .ok r' => r'
  | .error _ => r

/-- The relation that calls make of the one without nodes, in order. -/
def ofCalls (α : Type) (calls : List GraphCall) : NodeRelation :=
  calls.foldl (perform α) empty

end NodeRelation

namespace DependencyGraph

variable {α : Type} {g g' : DependencyGraph} {r : NodeRelation} {node u v : Node}

/-- The graph stands for the relation. -/
structure Realizes (g : DependencyGraph) (r : NodeRelation) : Prop where
  members : g.members = r.nodes
  pairs : ∀ u v, v ∈ g.influencersOf u ↔ (u, v) ∈ r.pairs

/-- Two answers to a call: the same refusal, or a graph that stands for the relation again. -/
inductive Alike : Except (Failure α) DependencyGraph → Except (Failure α) NodeRelation → Prop
  | refused (failure : Failure α) : Alike (.error failure) (.error failure)
  | done {g : DependencyGraph} {r : NodeRelation} (h : g.Realizes r) : Alike (.ok g) (.ok r)

namespace Realizes

variable (h : g.Realizes r)
include h

theorem checkMember (node : Node) : g.checkMember (α := α) node = r.check node := by
  rw [DependencyGraph.checkMember, NodeRelation.check]
  simp only [hasMember_iff, h.members]

/-- Both refuse a node that is not there, and go on with one that is. -/
theorem check {whole x : Except (Failure α) DependencyGraph} {y : Except (Failure α) NodeRelation}
    (hwhole : whole = do g.checkMember node; x)
    (hrest : node ∈ g.members → whole = x → Alike whole y) :
    Alike whole (do r.check node; y) := by
  cases hcheck : g.checkMember (α := α) node with
  | error failure =>
      rw [hwhole, ← h.checkMember, hcheck]
      exact .refused failure
  | ok =>
      rw [hcheck] at hwhole
      rw [← h.checkMember, hcheck]
      exact hrest (checkMember_eq_ok hcheck) hwhole

theorem addMember (node : Node) :
    Alike (g.addMember (α := α) node) (r.answer α (.addMember node)) := by
  rw [NodeRelation.answer, ← h.members]
  split
  next hmember =>
    rw [DependencyGraph.addMember, if_pos (hasMember_iff.mpr hmember)]
    exact .refused _
  next hnot =>
    have hok : g.addMember (α := α) node = .ok ⟨g.entries ++ [⟨node, [], []⟩]⟩ :=
      if_neg fun hmember => hnot (hasMember_iff.mp hmember)
    obtain ⟨_, hmembers, hinfluencers, _⟩ := addMember_changes hok
    rw [hok]
    refine .done ⟨hmembers, fun u v => ?_⟩
    rw [hinfluencers]
    exact h.pairs u v

theorem setDependency (dependent influencer : Node) :
    Alike (g.setDependency (α := α) dependent influencer)
      (r.answer α (.setDependency dependent influencer)) := by
  refine h.check rfl fun _ hrest => h.check hrest fun _ hok => ?_
  split at hok
  next hhas =>
    have hpair := (h.pairs _ _).mp (hasDependency_iff.mp hhas)
    rw [hok, Set.insert_eq_of_mem hpair]
    exact .done h
  next hnot =>
    obtain ⟨_, _, ⟨hmem, _⟩ | ⟨_, hmembers, hinfluencers, _⟩⟩ := setDependency_changes hok
    · exact absurd (hasDependency_iff.mpr hmem) hnot
    rw [hok]
    refine .done ⟨hmembers.trans h.members, fun u v => ?_⟩
    rw [hinfluencers, Set.mem_insert_iff, Prod.mk.injEq, ← h.pairs]
    by_cases hu : u = dependent <;> simp [hu, or_comm]

theorem unsetDependency (dependent influencer : Node) :
    Alike (g.unsetDependency (α := α) dependent influencer)
      (r.answer α (.unsetDependency dependent influencer)) := by
  refine h.check rfl fun _ hrest => h.check hrest fun _ hok => ?_
  obtain ⟨hmembers, hinfluencers, _⟩ := unsetDependency_changes hok
  rw [hok]
  refine .done ⟨hmembers.trans h.members, fun u v => ?_⟩
  rw [hinfluencers, Set.mem_sdiff, Set.mem_singleton_iff, Prod.mk.injEq, ← h.pairs]
  by_cases hu : u = dependent <;> simp [hu]

theorem removeMember (hg : g.Sound) (node : Node) :
    Alike (g.removeMember (α := α) node) (r.answer α (.removeMember node)) := by
  refine h.check rfl fun _ hok => ?_
  obtain ⟨hmembers, hinfluencers, _⟩ := hg.removeMember_changes hok
  rw [hok]
  refine .done ⟨hmembers.trans (by rw [h.members]), fun u v => ?_⟩
  rw [hinfluencers, Set.mem_sep_iff, ← h.pairs]
  by_cases hu : u = node <;> simp [hu]

/-- A graph that stands for a relation answers each call as the relation does. -/
theorem answer (hg : g.Sound) (call : GraphCall) : Alike (call.answer α g) (r.answer α call) := by
  cases call with
  | addMember node => exact h.addMember node
  | setDependency dependent influencer => exact h.setDependency dependent influencer
  | unsetDependency dependent influencer => exact h.unsetDependency dependent influencer
  | removeMember node => exact h.removeMember hg node

theorem perform (hg : g.Sound) (call : GraphCall) :
    (call.perform α g).Realizes (r.perform α call) := by
  have halike := h.answer (α := α) hg call
  rw [GraphCall.perform, NodeRelation.perform]
  revert halike
  generalize call.answer α g = x
  generalize r.answer α call = y
  rintro (_ | h')
  · exact h
  · exact h'

omit h in
theorem empty : Realizes DependencyGraph.empty NodeRelation.empty :=
  ⟨rfl, fun _ _ => iff_of_false List.not_mem_nil id⟩

end Realizes

end DependencyGraph

end CausalBlocks
