import CausalBlocks.Failure

/-!
# Dependency graphs

A dependency graph says which node needs which other node's value within one
iteration. Its members keep the order in which they were added, and each lists
the nodes that it needs, its influencers, and those that need it, its dependents.
-/

namespace CausalBlocks

/-- A member of a dependency graph with its neighbours, oldest first. -/
structure DependencyEntry where
  node : Node
  influencers : List Node
  dependents : List Node
  deriving DecidableEq

/-- The members in order of addition. -/
structure DependencyGraph where
  entries : List DependencyEntry
  deriving DecidableEq

namespace DependencyGraph

/-- The graph without members. -/
def empty : DependencyGraph := ⟨[]⟩

/-- The members in order. -/
def members (g : DependencyGraph) : List Node := g.entries.map DependencyEntry.node

/-- The entry of a node. -/
def entry? (g : DependencyGraph) (node : Node) : Option DependencyEntry :=
  g.entries.find? fun e => e.node = node

/-- Whether a node is a member. -/
def hasMember (g : DependencyGraph) (node : Node) : Bool := (g.entry? node).isSome

/-- The nodes that a member needs; none for other nodes. -/
def influencersOf (g : DependencyGraph) (node : Node) : List Node :=
  match g.entry? node with
  | some e => e.influencers
  | none => []

/-- The nodes that need a member; none for other nodes. -/
def dependentsOf (g : DependencyGraph) (node : Node) : List Node :=
  match g.entry? node with
  | some e => e.dependents
  | none => []

/-- Whether one node needs another. -/
def hasDependency (g : DependencyGraph) (dependent influencer : Node) : Bool :=
  (g.influencersOf dependent).contains influencer

/-- The graph with the entry of one node changed. -/
def modifyEntry (g : DependencyGraph) (node : Node) (f : DependencyEntry → DependencyEntry) :
    DependencyGraph :=
  ⟨g.entries.map fun e => if e.node = node then f e else e⟩

variable {α : Type}

/-- Refuses a node that is not a member. -/
def checkMember (g : DependencyGraph) (node : Node) : Except (Failure α) Unit :=
  if g.hasMember node then .ok () else .error (.notMember node.text)

/-- The graph with a new member at the end. -/
def addMember (g : DependencyGraph) (node : Node) : Except (Failure α) DependencyGraph :=
  if g.hasMember node then .error (.alreadyMember node.text)
  else .ok ⟨g.entries ++ [⟨node, [], []⟩]⟩

/-- The graph in which one member needs another. Saying it twice has no effect. -/
def setDependency (g : DependencyGraph) (dependent influencer : Node) :
    Except (Failure α) DependencyGraph := do
  g.checkMember dependent
  g.checkMember influencer
  if g.hasDependency dependent influencer then return g
  return (g.modifyEntry dependent fun e => { e with influencers := e.influencers ++ [influencer] })
    |>.modifyEntry influencer fun e => { e with dependents := e.dependents ++ [dependent] }

/-- The graph in which one member does not need another. -/
def unsetDependency (g : DependencyGraph) (dependent influencer : Node) :
    Except (Failure α) DependencyGraph := do
  g.checkMember dependent
  g.checkMember influencer
  return (g.modifyEntry dependent fun e =>
      { e with influencers := e.influencers.filter (· ≠ influencer) })
    |>.modifyEntry influencer fun e => { e with dependents := e.dependents.filter (· ≠ dependent) }

/-- The graph in which some members do not list a node among their dependents. -/
def strikeDependent (g : DependencyGraph) (members : List Node) (node : Node) : DependencyGraph :=
  members.foldl (fun g member => g.modifyEntry member fun e =>
    { e with dependents := e.dependents.filter (· ≠ node) }) g

/-- The graph in which some members do not list a node among their influencers. -/
def strikeInfluencer (g : DependencyGraph) (members : List Node) (node : Node) : DependencyGraph :=
  members.foldl (fun g member => g.modifyEntry member fun e =>
    { e with influencers := e.influencers.filter (· ≠ node) }) g

/-- The graph without a member and its dependencies. The member's own lists say which
other lists it has to be taken out of. -/
def removeMember (g : DependencyGraph) (node : Node) : Except (Failure α) DependencyGraph := do
  g.checkMember node
  let g := g.strikeDependent (g.influencersOf node) node
  let g := g.strikeInfluencer (g.dependentsOf node) node
  return ⟨g.entries.filter fun e => e.node ≠ node⟩

/-- The nodes that a member needs. -/
def influencers (g : DependencyGraph) (node : Node) : Except (Failure α) (List Node) :=
  match g.entry? node with
  | some e => .ok e.influencers
  | none => .error (.notMember node.text)

/-- The nodes that need a member. -/
def dependents (g : DependencyGraph) (node : Node) : Except (Failure α) (List Node) :=
  match g.entry? node with
  | some e => .ok e.dependents
  | none => .error (.notMember node.text)

end DependencyGraph

end CausalBlocks
