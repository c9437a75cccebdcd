import CausalBlocks.Diagram.Link
import CausalBlocks.Diagram.Samples

/-!
# Flattening

Flattening a composite takes the composites inside it apart: their children move
up under names that keep the path, and links through their ports become direct.
Composites of the types listed to be kept stay as they are. The work is done from
the inside out, in place.
-/

namespace CausalBlocks

variable {α : Type}

namespace Edit

/-- Takes a block out of its composite's lists. -/
def detach (id : BlockId) : Edit α Unit := do
  let b ← (← diagram).block id
  match b.parent with
  | none => pure ()
  | some parent =>
    modifyBlock parent fun p =>
      { p with
        children := p.children.filter (· ≠ id)
        childIndex := p.childIndex.filter fun entry => entry.1 ≠ b.name }

/-- Moves a block into a composite under a new name. -/
def reparent (child parent : BlockId) (name : String) : Edit α Unit := do
  let d ← diagram
  let composite ← d.block parent
  if name ∈ composite.takenNames then throw (.duplicateBlock (d.pathOf parent) name)
  detach child
  modifyBlock parent fun p =>
    { p with children := p.children ++ [child], childIndex := p.childIndex ++ [(name, child)] }
  modifyBlock child fun b => { b with parent := some parent, name }

/-- Takes a block out of the diagram; its place stays empty. -/
def remove (id : BlockId) : Edit α Unit := do
  detach id
  update fun d => { d with blocks := d.blocks.modify id.index fun _ => none }

/-- Replaces the links of a composite's port by links around it. -/
def bypass (port : PortId) : Edit α Unit := do
  let p ← (← diagram).port port
  if let some source := p.incoming then disconnectPorts source port
  p.outgoing.forM fun target => do
    disconnectPorts port target
    if let some source := p.incoming then link source target

/-- Takes a composite apart: links go around it, its children move up, and it is
removed. The inputs come first, so that a wire from an input to an output is
handled with the output. -/
def dissolve (parent composite : BlockId) : Edit α Unit := do
  let b ← (← diagram).block composite
  ((List.range b.inputs.length).map (PortId.input composite) ++
    (List.range b.outputs.length).map (PortId.output composite)).forM bypass
  b.children.forM fun child => do
    let moved ← (← diagram).block child
    reparent child parent (b.name ++ "." ++ moved.name)
  remove composite

/-- Flattens a composite to a depth. -/
def flattenTo (keep : List String) : Nat → BlockId → Edit α Unit
  | 0, _ => pure ()
  | depth + 1, id => do
    let d ← diagram
    let b ← d.block id
    unless b.isComposite do throw (.notComposite (d.pathOf id))
    b.children.forM fun child => do
      let inner ← (← diagram).block child
      if inner.isComposite ∧ inner.operator.typeName ∉ keep then
        flattenTo keep depth child
        dissolve id child

/-- Takes every composite below a composite apart, except those of the types to
keep and what is inside them. -/
def flatten (id : BlockId) (keep : List String) : Edit α Unit := do
  flattenTo keep (← diagram).blocks.size id

end Edit

/-- The model with its composites taken apart and without samples. Taking apart
gives no notices. -/
def Diagram.flattened (d : Diagram α) (keep : List String) : Except (Failure α) (Diagram α) :=
  match Edit.flatten d.root keep { diagram := d.clearSignals } with
  | .ok _ editor => .ok editor.diagram
  | .error failure _ => .error failure

end CausalBlocks
