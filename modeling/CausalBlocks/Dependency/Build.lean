import CausalBlocks.Dependency.Graph
import CausalBlocks.Diagram.Closure

/-!
# The dependencies of one iteration

The members are the model's inputs, every operator and the model's outputs, in
this order. An operator needs what drives those of its inputs that matter at the
iteration; an output of the model needs what drives it, if anything does.
-/

namespace CausalBlocks

variable {α : Type}

namespace Diagram

/-- The node that produces the value of a port. -/
def nodeOf (d : Diagram α) (port : PortId) : Node :=
  if port.block = d.root then .port port else .block port.block

/-- The inputs of a block whose value of the same iteration is needed. -/
def neededInputs (d : Diagram α) (id : BlockId) (iteration : Nat) :
    Except (Failure α) (List PortId) := do
  let b ← d.block id
  return (b.operator.neededInputs iteration).map (PortId.input id)

/-- The dependencies, with a way to find what drives an input. -/
def dependenciesWith (d : Diagram α) (iteration : Nat)
    (driver : PortId → Except (Failure α) PortId) : Except (Failure α) DependencyGraph := do
  let nodes := (d.portIds d.root .input).map Node.port ++ d.primitives.map Node.block ++
    (d.portIds d.root .output).map Node.port
  let g ← nodes.foldlM DependencyGraph.addMember .empty
  let g ← d.primitives.foldlM (fun g id => do
    (← d.neededInputs id iteration).foldlM (fun g input => do
      g.setDependency (.block id) (d.nodeOf (← driver input))) g) g
  (d.portIds d.root .output).foldlM (fun g output => do
    let source ← d.prevClosure output
    if source = output then return g
    else g.setDependency (.port output) (d.nodeOf source)) g

/-- The dependencies of an iteration, through composites. -/
def dependencies (d : Diagram α) (iteration : Nat) : Except (Failure α) DependencyGraph :=
  d.dependenciesWith iteration d.driverOf

/-- What an input is linked to directly. -/
def directDriver (d : Diagram α) (input : PortId) : Except (Failure α) PortId := do
  let p ← d.port input
  match p.incoming with
  | some source => return source
  | none => throw (.unconnectedInput (d.pathOf input.block) p.name)

/-- The dependencies of an iteration of a model without composites, read off the
links directly. -/
def flatDependencies (d : Diagram α) (iteration : Nat) : Except (Failure α) DependencyGraph :=
  match d.blockIds.find? fun id => id ≠ d.root && d.isComposite id with
  | some id => .error (.notFlat (d.pathOf id))
  | none => d.dependenciesWith iteration d.directDriver

/-- The path of a node. -/
def nodePath (d : Diagram α) : Node → String
  | .block id => d.pathOf id
  | .port id => d.portPath id

end Diagram

/-- The graph in the language of Graphviz: every member, then an arrow from each
to what it needs. -/
def DependencyGraph.dot (g : DependencyGraph) (d : Diagram α) : String :=
  let quoted (node : Node) : String := "\"" ++ d.nodePath node ++ "\""
  let members := g.entries.map fun e => "  " ++ quoted e.node ++ ";\n"
  let arrows := g.entries.flatMap fun e => e.influencers.map fun influencer =>
    "  " ++ quoted e.node ++ " -> " ++ quoted influencer ++ ";\n"
  "digraph dependencies \x7b\n" ++ String.join members ++ String.join arrows ++ "\x7d\n"

end CausalBlocks
