import CausalBlocks.Dependency.Graph
import CausalBlocks.Schedule.DepthFirst

/-!
# Schedules

A schedule lists groups of nodes so that each group comes after everything that
it needs. Nodes that need each other form one group, an algebraic loop. The
groups are found by two depth-first passes: the first walks with the flow of data
and notes the order in which nodes are done, the second walks against it from
the node done last.
-/

namespace CausalBlocks

/-- What is computed together. -/
inductive Group where
  | block (id : BlockId)
  | port (id : PortId)
  /-- Blocks that need each other within one iteration. -/
  | cycle (blocks : List BlockId)
  deriving DecidableEq

/-- The block of a node, if it is one. -/
def Node.block? : Node → Option BlockId
  | .block id => some id
  | .port _ => none

namespace DependencyGraph

/-- The members in the order in which the walk with the flow of data is done with
them, the last one first. -/
def finishingOrder (g : DependencyGraph) : List Node :=
  (walksFrom g.dependentsOf g.members g.members).reverse.flatten

/-- The sets of members that need each other, each after those it needs. -/
def components (g : DependencyGraph) : List (List Node) :=
  ((walksFrom g.influencersOf g.members g.finishingOrder).filter fun met => !met.isEmpty).map
    fun met => g.members.filter fun node => node ∈ met

/-- What a component computes. A single node is a loop only if it needs itself,
and a port never is. -/
def groupOf (g : DependencyGraph) : List Node → Group
  | [.port id] => .port id
  | [.block id] => if g.hasDependency (.block id) (.block id) then .cycle [id] else .block id
  | nodes => .cycle (nodes.filterMap Node.block?)

/-- The schedule of a graph. -/
def schedule (g : DependencyGraph) : List Group := g.components.map g.groupOf

end DependencyGraph

/-- When a schedule is made anew: at every iteration, or at the first two, where
delays change what they need, and at those listed. -/
inductive RecomputePolicy where
  | always
  | atIterations (iterations : List Nat)
  deriving DecidableEq

namespace RecomputePolicy

/-- The policy that is used when none is given. -/
def standard : RecomputePolicy := .atIterations [0, 1]

/-- Whether the schedule is made anew at an iteration. -/
def recomputesAt : RecomputePolicy → Nat → Bool
  | .always, _ => true
  | .atIterations iterations, iteration => iteration < 2 || iterations.contains iteration

end RecomputePolicy

/-- A schedule kept until the policy asks for another. -/
structure Scheduler where
  policy : RecomputePolicy
  kept : Option (List Group) := none

namespace Scheduler

/-- The scheduler that has forgotten its schedule. -/
def forget (s : Scheduler) : Scheduler := { s with kept := none }

/-- The schedule for an iteration, and the scheduler that keeps it. -/
def obtain (s : Scheduler) (g : DependencyGraph) (iteration : Nat) : List Group × Scheduler :=
  match s.kept, s.policy.recomputesAt iteration with
  | some groups, false => (groups, s)
  | _, _ => (g.schedule, { s with kept := some g.schedule })

end Scheduler

/-- Whether a block with a rate computes at an iteration. A block without a rate
always does, and so does every block at first; later the time has to be a
multiple of the rate, up to a relative tolerance. -/
def mustCompute {α : Type} [Scalar α] (rate : Option α) (iteration : Nat) (time : α) : Bool :=
  match rate with
  | none => true
  | some rate =>
    iteration = 0 ||
      (let nearest := Scalar.round (time / rate) * rate
       decide (Scalar.abs (time - nearest) ≤ 1e-6 * Scalar.greater (Scalar.abs time) 1))

end CausalBlocks
