import CausalBlocks.Diagram.Closure
import CausalBlocks.Text.Alphanumeric
import CausalBlocks.Text.Numeral

/-!
# Building a diagram

An `Edit` changes a diagram and may fail. What it did before it failed stays
done, and so do the notices it gave; whether an operation leaves the diagram
alone when it fails is a property of the operation.
-/

namespace CausalBlocks

/-- A diagram at work, with the notices given so far. -/
structure Editor (α : Type) where
  diagram : Diagram α
  journal : Journal α := #[]

/-- A change of a diagram that can fail on the way. -/
abbrev Edit (α β : Type) := EStateM (Failure α) (Editor α) β

/-- A failure needs no state. -/
instance liftExcept {ε σ : Type} : MonadLift (Except ε) (EStateM ε σ) where
  monadLift
    | .ok x => pure x
    | .error failure => throw failure

variable {α : Type}

namespace Edit

/-- The diagram as it is now. -/
def diagram : Edit α (Diagram α) := return (← get).diagram

/-- Replaces the diagram by a changed one. -/
def update (f : Diagram α → Diagram α) : Edit α Unit :=
  modify fun editor => { editor with diagram := f editor.diagram }

/-- Adds a notice to the journal. -/
def report (notice : Notice α) : Edit α Unit :=
  modify fun editor => { editor with journal := editor.journal.push notice }

/-- Changes a block, which has to exist. -/
def modifyBlock (id : BlockId) (f : Block α → Block α) : Edit α Unit := do
  let _ ← (← diagram).block id
  update fun d => d.modifyBlock id f

/-- Changes a port, which has to exist. -/
def modifyPort (id : PortId) (f : Port α → Port α) : Edit α Unit := do
  let _ ← (← diagram).port id
  update fun d => d.modifyPort id f

end Edit

/-- The first name of the form stem and numeral that is not taken, counting from
`first`; the stem itself if it is a free name. Numerals differ for different
numbers, so one more candidate than there are taken names is enough. -/
def freshName (taken : List String) (stem : String) (numeral : Nat → String) (first : Nat) :
    String :=
  if stem ≠ "" ∧ stem ∉ taken then stem
  else
    let candidate? (k : Nat) : Option String :=
      let name := stem ++ numeral (first + k)
      if name ∈ taken then none else some name
    ((List.range (taken.length + 1)).findSome? candidate?).getD stem

/-- A name that a child of a block can have: the stem, or the stem with a number.
A hashed number is in base 64 and starts from one that differs for every block
and every size of the diagram. -/
def Diagram.uniqueName (d : Diagram α) (parent : BlockId) (stem : String) (hashed : Bool) :
    Except (Failure α) String := do
  let b ← d.block parent
  if hashed then
    return freshName b.takenNames stem numeral64 ((d.blocks.size <<< 16) ||| parent.index)
  else return freshName b.takenNames stem toString 1

/-- The characters of a name that raises no notice. -/
def isPlainNameChar (c : Char) : Bool := isAlphanumeric c || c = '_' || c = '-'

namespace Edit

/-- The name of a new child: the given one, or a generated one if that is empty. -/
def childName (parent : BlockId) (name : String) : Edit α String :=
  if name.isEmpty then do
    let d ← diagram
    let generated ← d.uniqueName parent "" true
    report (.nameGenerated (d.pathOf parent) generated)
    return generated
  else return name

/-- Puts blocks at the end of the diagram, the first of them as a child of a
composite under a name. -/
def adopt (parent : BlockId) (name : String) (blocks : List (Block α)) : Edit α BlockId := do
  let id : BlockId := ⟨(← diagram).blocks.size⟩
  update fun d => { d with blocks := d.blocks ++ (blocks.map some).toArray }
  modifyBlock parent fun b =>
    { b with children := b.children ++ [id], childIndex := b.childIndex ++ [(name, id)] }
  return id

/-- Adds a block to a composite under a name that neither a child nor a port of
the composite has. An empty name is replaced by a generated one. -/
def insert (parent : BlockId) (name : String) (operator : Operator α)
    (inputs outputs : List String) : Edit α BlockId := do
  let d ← diagram
  let composite ← d.block parent
  unless composite.isComposite do throw (.notComposite (d.pathOf parent))
  let name ← childName parent name
  unless name.toList.all isPlainNameChar do report (.unusualName name)
  if name ∈ composite.takenNames then
    report (.nameInUse (d.pathOf parent) name)
    throw (.duplicateBlock (d.pathOf parent) name)
  adopt parent name [.make name operator (some parent) inputs outputs]

/-- Adds a block with the ports of its operator. -/
def addBlock (parent : BlockId) (name : String) (operator : Operator α) : Edit α BlockId :=
  insert parent name operator operator.inputNames operator.outputNames

/-- Adds a composite with nothing in it. -/
def addComposite (parent : BlockId) (name type : String) (inputs outputs : List String) :
    Edit α BlockId :=
  insert parent name (.composite type) inputs outputs

end Edit

end CausalBlocks
