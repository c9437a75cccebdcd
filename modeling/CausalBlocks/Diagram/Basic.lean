import CausalBlocks.Block.Operator
import CausalBlocks.Signal

/-!
# Diagrams

A diagram keeps its blocks in the order of their creation, and a block keeps its
place for good: taking a block out leaves the place empty. A composite lists its
children and finds them by name; each block knows its composite. Links are kept
at both ends, with the port that is driven and with the port that drives it.

Nesting is at most as deep as there are blocks, which bounds the walks up and
down the hierarchy.
-/

namespace CausalBlocks

/-- A named end of links. Whether it is an input or an output is the business of
its block. -/
structure Port (α : Type) where
  name : String
  /-- The port that drives this one. -/
  incoming : Option PortId := none
  /-- The ports that this one drives, the oldest link first. -/
  outgoing : List PortId := []
  history : History α := #[]

/-- A block: an operator with ports, or a composite with children. -/
structure Block (α : Type) where
  name : String
  operator : Operator α
  parent : Option BlockId
  inputs : List (Port α)
  outputs : List (Port α)
  /-- The children in order of insertion. -/
  children : List BlockId := []
  /-- The children by name. -/
  childIndex : List (String × BlockId) := []
  /-- The period at whose multiples the block computes, if not always. -/
  rate : Option α := none

/-- The blocks by their place; the first is the root, which stands for the model
itself. -/
structure Diagram (α : Type) where
  blocks : Array (Option (Block α))

variable {α : Type}

namespace Port

/-- A port without links and samples. -/
def ofName (name : String) : Port α := { name }

end Port

namespace Block

/-- A block without children, links and samples. -/
def make (name : String) (operator : Operator α) (parent : Option BlockId)
    (inputs outputs : List String) : Block α :=
  { name, operator, parent
    inputs := inputs.map Port.ofName
    outputs := outputs.map Port.ofName }

/-- The ports of one side. -/
def ports (b : Block α) : Side → List (Port α)
  | .input => b.inputs
  | .output => b.outputs

/-- Whether the block holds other blocks. -/
def isComposite (b : Block α) : Bool := b.operator.isComposite

/-- The child with a name. -/
def child? (b : Block α) (name : String) : Option BlockId := b.childIndex.lookup name

/-- The place of the first input with a name. -/
def inputIndex? (b : Block α) (name : String) : Option Nat :=
  b.inputs.findIdx? fun p => p.name == name

/-- The place of the first output with a name. -/
def outputIndex? (b : Block α) (name : String) : Option Nat :=
  b.outputs.findIdx? fun p => p.name == name

/-- The names that a new child cannot have: those of the children and of the
ports. -/
def takenNames (b : Block α) : List String :=
  b.childIndex.map Prod.fst ++ (b.inputs ++ b.outputs).map Port.name

/-- The block with the ports of one side changed. -/
def mapPorts (b : Block α) (side : Side) (f : List (Port α) → List (Port α)) : Block α :=
  match side with
  | .input => { b with inputs := f b.inputs }
  | .output => { b with outputs := f b.outputs }

end Block

namespace Diagram

/-- A diagram with a root and nothing in it. -/
def empty (name : String) (inputs outputs : List String) : Diagram α :=
  ⟨#[some (.make name (.composite "Diagram") none inputs outputs)]⟩

/-- The block that stands for the model itself. -/
def root (_ : Diagram α) : BlockId := ⟨0⟩

/-- The block at a place, unless the place is empty. -/
def block? (d : Diagram α) (id : BlockId) : Option (Block α) := d.blocks[id.index]?.join

/-- The block at a place. -/
def block (d : Diagram α) (id : BlockId) : Except (Failure α) (Block α) :=
  match d.block? id with
  | some b => .ok b
  | none => .error (.blockNotFound id.text)

/-- The name of the model. -/
def name (d : Diagram α) : String :=
  match d.block? d.root with
  | some b => b.name
  | none => ""

/-- The places that hold a block, in order. -/
def blockIds (d : Diagram α) : List BlockId :=
  ((List.range d.blocks.size).map BlockId.mk).filter fun id => (d.block? id).isSome

/-- The names on the way down from the root to a block, without the root's. -/
def namesAbove (d : Diagram α) : Nat → BlockId → List String
  | 0, _ => []
  | depth + 1, id =>
    if id = d.root then []
    else
      match d.block? id with
      | none => []
      | some b =>
        match b.parent with
        | none => [b.name]
        | some parent => d.namesAbove depth parent ++ [b.name]

/-- The names from the root down, with points between them; the root goes by its
own name. -/
def pathOf (d : Diagram α) (id : BlockId) : String :=
  if id = d.root then d.name else ".".intercalate (d.namesAbove d.blocks.size id)

/-- The path that a child of a block with this name has. -/
def childPath (d : Diagram α) (parent : BlockId) (name : String) : String :=
  if parent = d.root then name else d.pathOf parent ++ "." ++ name

/-- The port at a place, if there is one. -/
def port? (d : Diagram α) (id : PortId) : Option (Port α) :=
  (d.block? id.block).bind fun b => (b.ports id.side)[id.index]?

/-- The port at a place. -/
def port (d : Diagram α) (id : PortId) : Except (Failure α) (Port α) := do
  let b ← d.block id.block
  match (b.ports id.side)[id.index]? with
  | some p => return p
  | none => throw (.portNotFound (d.pathOf id.block) id.placeText)

/-- The path of a port's block and the port's name; the root's own ports go by
their name alone. -/
def portPath (d : Diagram α) (id : PortId) : String :=
  let name :=
    match d.port? id with
    | some p => p.name
    | none => id.text
  if id.block = d.root then name else d.pathOf id.block ++ "." ++ name

/-- Whether a block exists and is a composite. -/
def isComposite (d : Diagram α) (id : BlockId) : Bool :=
  match d.block? id with
  | some b => b.isComposite
  | none => false

/-- The ports of one side of a block. -/
def portIds (d : Diagram α) (id : BlockId) (side : Side) : List PortId :=
  match d.block? id with
  | some b => (List.range (b.ports side).length).map (PortId.mk id side)
  | none => []

/-- All ports of all blocks. -/
def allPorts (d : Diagram α) : List PortId :=
  d.blockIds.flatMap fun id => d.portIds id .input ++ d.portIds id .output

/-- A block and everything below it to a depth, parents before children. -/
def below (d : Diagram α) : Nat → BlockId → List BlockId
  | 0, _ => []
  | depth + 1, id =>
    match d.block? id with
    | none => []
    | some b => id :: b.children.flatMap (d.below depth)

/-- A block and everything below it, parents before children. -/
def descendants (d : Diagram α) (id : BlockId) : List BlockId := d.below d.blocks.size id

/-- The blocks of the model that compute something, in model order. -/
def primitives (d : Diagram α) : List BlockId :=
  (d.descendants d.root).filter fun id => !d.isComposite id

/-- The outputs of everything below a block to a depth; those inside a composite
come before its own. -/
def outputsBelow (d : Diagram α) : Nat → BlockId → List PortId
  | 0, _ => []
  | depth + 1, id =>
    match d.block? id with
    | none => []
    | some b => b.children.flatMap fun child =>
      (if d.isComposite child then d.outputsBelow depth child else []) ++ d.portIds child .output

/-- The outputs of all blocks, those inside a composite before its own, and the
model's outputs last. -/
def signalPorts (d : Diagram α) : List PortId :=
  d.outputsBelow d.blocks.size d.root ++ d.portIds d.root .output

/-- The paths of the signal ports. -/
def signalNames (d : Diagram α) : List String := d.signalPorts.map d.portPath

/-! ### Changing blocks in place -/

/-- The diagram with one block changed. -/
def modifyBlock (d : Diagram α) (id : BlockId) (f : Block α → Block α) : Diagram α :=
  { d with blocks := d.blocks.modify id.index (Option.map f) }

/-- The diagram with one port changed. -/
def modifyPort (d : Diagram α) (id : PortId) (f : Port α → Port α) : Diagram α :=
  d.modifyBlock id.block fun b => b.mapPorts id.side fun ports => ports.modify id.index f

/-- The diagram with every port changed. -/
def mapPorts (d : Diagram α) (f : Port α → Port α) : Diagram α :=
  { d with blocks := d.blocks.map (Option.map fun b =>
      { b with inputs := b.inputs.map f, outputs := b.outputs.map f }) }

end Diagram

end CausalBlocks
