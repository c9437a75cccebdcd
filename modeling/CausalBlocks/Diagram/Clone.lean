import CausalBlocks.Diagram.Edit

/-!
# Copies

A copy of a block takes everything below it along. Links inside the copied part
are made again; those to the outside and the samples stay behind.
-/

namespace CausalBlocks

variable {α : Type}

/-- The place of the last occurrence in a list. -/
def lastIndexOf? {β : Type} [DecidableEq β] (xs : List β) (x : β) : Option Nat :=
  (xs.reverse.idxOf? x).map fun k => xs.length - 1 - k

/-- A copy of a port, with its links renamed; those without a new name are
dropped. -/
def Port.copy (p : Port α) (rename : BlockId → Option BlockId) : Port α :=
  let renamePort (id : PortId) : Option PortId :=
    (rename id.block).map fun block => { id with block }
  { name := p.name
    incoming := p.incoming.bind renamePort
    outgoing := p.outgoing.filterMap renamePort }

namespace Block

/-- A copy of a block inside the copied part. -/
def copyInside (b : Block α) (rename : BlockId → Option BlockId) : Block α :=
  { b with
    parent := b.parent.bind rename
    inputs := b.inputs.map fun p => p.copy rename
    outputs := b.outputs.map fun p => p.copy rename
    children := b.children.filterMap rename
    childIndex := b.childIndex.filterMap fun (name, child) => (rename child).map (name, ·) }

/-- A copy of the block at the top of the copied part: it has a new name and a
new parent, and its links among its siblings stay behind. -/
def copyTop (b : Block α) (rename : BlockId → Option BlockId) (parent : BlockId)
    (name : String) : Block α :=
  { b.copyInside rename with
    name
    parent := some parent
    inputs := b.inputs.map fun p => { p.copy rename with incoming := none }
    outputs := b.outputs.map fun p => { p.copy rename with outgoing := [] } }

end Block

namespace Diagram

/-- The copies of a block and everything below it, to be placed at the end. -/
def copies (d : Diagram α) (source parent : BlockId) (name : String) : List (Block α) :=
  let part := d.descendants source
  let rename (id : BlockId) : Option BlockId :=
    (lastIndexOf? part id).map fun k => ⟨d.blocks.size + k⟩
  part.filterMap fun id => (d.block? id).map fun b =>
    if id = source then b.copyTop rename parent name else b.copyInside rename

end Diagram

namespace Edit

/-- Copies a block with everything below it into a composite under a new name. -/
def clone (source parent : BlockId) (name : String) : Edit α BlockId := do
  let d ← diagram
  if source = d.root then throw (.invalidParameter "source" .rootAsSource)
  let composite ← d.block parent
  unless composite.isComposite do throw (.notComposite (d.pathOf parent))
  if name.isEmpty ∨ name ∈ composite.takenNames then
    report (.cloneNameInUse (d.pathOf parent) name)
    throw (.duplicateBlock (d.pathOf parent) name)
  adopt parent name (d.copies source parent name)

end Edit

end CausalBlocks
