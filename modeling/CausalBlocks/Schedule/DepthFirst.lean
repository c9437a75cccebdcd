/-!
# Depth-first walks

A walk starts from some nodes and goes on to the successors of each node it
meets, as deep as it can before it goes wide. It is told which nodes are fresh,
meets each of them at most once, and leaves all others alone. `finish` gives the
nodes in the order in which the walk is done with them, and what is still fresh.
-/

namespace CausalBlocks

variable {ν : Type} [DecidableEq ν]

/-- A node on the way of a walk, with the successors that are still to be looked
at. -/
structure Visit (ν : Type) where
  node : ν
  rest : List ν

/-- The state between the steps of a walk: the nodes on the way, innermost first,
those not met yet, and those done with, the latest first. -/
structure Walk (ν : Type) where
  trail : List (Visit ν)
  fresh : List ν
  finished : List ν

/-- The work left on a trail. -/
def trailWork : List (Visit ν) → Nat
  | [] => 0
  | v :: trail => v.rest.length + 1 + trailWork trail

/-- The work that fresh nodes will make once they are met. -/
def freshWork (successors : ν → List ν) : List ν → Nat
  | [] => 0
  | node :: fresh => (successors node).length + 1 + freshWork successors fresh

theorem freshWork_erase (successors : ν → List ν) {fresh : List ν} {node : ν}
    (h : node ∈ fresh) :
    freshWork successors fresh = (successors node).length + 1 +
      freshWork successors (fresh.erase node) := by
  induction fresh with
  | nil => cases h
  | cons other rest ih =>
    by_cases hother : other = node
    · subst hother
      rw [List.erase_cons_head]
      rfl
    · rw [List.erase_cons_tail (by simpa using hother), freshWork, freshWork,
        ih ((List.mem_cons.mp h).resolve_left (Ne.symm hother))]
      omega

/-- The walk until the trail is empty. -/
def Walk.run (successors : ν → List ν) (walk : Walk ν) : Walk ν :=
  match walk with
  | ⟨[], fresh, finished⟩ => ⟨[], fresh, finished⟩
  | ⟨⟨node, []⟩ :: trail, fresh, finished⟩ =>
    Walk.run successors ⟨trail, fresh, node :: finished⟩
  | ⟨⟨node, next :: rest⟩ :: trail, fresh, finished⟩ =>
    if next ∈ fresh then
      Walk.run successors
        ⟨⟨next, successors next⟩ :: ⟨node, rest⟩ :: trail, fresh.erase next, finished⟩
    else Walk.run successors ⟨⟨node, rest⟩ :: trail, fresh, finished⟩
termination_by trailWork walk.trail + freshWork successors walk.fresh
decreasing_by
  · simp [trailWork]
  · rename_i hnext
    rw [freshWork_erase successors hnext]
    simp only [trailWork, List.length_cons]
    omega
  · simp [trailWork]

/-- The walk from one node: the nodes met, the latest done with first, and what
is still fresh. Nothing is met if the node is not fresh. -/
def walkFrom (successors : ν → List ν) (fresh : List ν) (start : ν) : List ν × List ν :=
  if start ∈ fresh then
    let walk := Walk.run successors ⟨[⟨start, successors start⟩], fresh.erase start, []⟩
    (walk.finished, walk.fresh)
  else ([], fresh)

/-- The walks from several nodes in turn, each through what the ones before left
fresh: the nodes that each one met. -/
def walksFrom (successors : ν → List ν) : List ν → List ν → List (List ν)
  | _, [] => []
  | fresh, start :: rest =>
    let (met, fresh) := walkFrom successors fresh start
    met :: walksFrom successors fresh rest

end CausalBlocks
