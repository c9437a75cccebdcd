import CausalBlocks.Diagram.Edit

/-!
# Linking ports

A link runs inside one composite: from an input of the composite or an output of
a child, to an output of the composite or an input of a child. An input has at
most one link. Ports can be given directly or by name; an input left open means
the first free one of those numbered from one.
-/

namespace CausalBlocks

variable {α : Type}

namespace Block

/-- The place of the unlinked input with the smallest number. -/
def freeInput? (b : Block α) : Option Nat :=
  (List.range b.inputs.length).findSome? fun n => do
    let index ← b.inputIndex? ("IN" ++ toString (n + 1))
    let port ← b.inputs[index]?
    if port.incoming.isNone then some index else none

end Block

namespace Diagram

/-- The child of a composite with a name. -/
def childNamed (d : Diagram α) (parent : BlockId) (name : String) :
    Except (Failure α) BlockId := do
  match (← d.block parent).child? name with
  | some child => return child
  | none => throw (.blockNotFound (d.childPath parent name))

/-- The port that links from a name start at: an input of the composite, or an
output of a child. -/
def sourceNamed (d : Diagram α) (parent : BlockId) (name : String) (output : Option String) :
    Except (Failure α) PortId := do
  if let some index := (← d.block parent).inputIndex? name then return .input parent index
  let child ← d.childNamed parent name
  d.outputNamed child (d.pathOf child) (output.getD defaultOutput)

/-- The input of a child that a link goes to: the named one, or the first free
one if the child's inputs are all alike. -/
def inputNamed (d : Diagram α) (child : BlockId) (input : Option String) :
    Except (Failure α) PortId := do
  let b ← d.block child
  match input with
  | some name =>
    match b.inputIndex? name with
    | some index => return .input child index
    | none => throw (.portNotFound (d.pathOf child) name)
  | none =>
    if b.operator.isOrderSensitive then
      throw (.orderSensitive (d.pathOf child) b.operator.typeName)
    match b.freeInput? with
    | some index => return .input child index
    | none => throw (.noFreeInput (d.pathOf child))

/-- The port that links to a name end at: an output of the composite, or an input
of a child. -/
def targetNamed (d : Diagram α) (parent : BlockId) (name : String) (input : Option String) :
    Except (Failure α) PortId := do
  if let some index := (← d.block parent).outputIndex? name then return .output parent index
  d.inputNamed (← d.childNamed parent name) input

/-- The port at which the link from a source to a name ends: a named input, an
output of the composite, or the first input of a child that the source drives. -/
def linkedTarget (d : Diagram α) (parent : BlockId) (source : PortId) (sourceName name : String)
    (input : Option String) : Except (Failure α) PortId := do
  if input.isSome then d.targetNamed parent name input
  else
    if let some index := (← d.block parent).outputIndex? name then return .output parent index
    let child ← d.childNamed parent name
    let b ← d.block child
    match b.inputs.findIdx? fun p => p.incoming == some source with
    | some index => return .input child index
    | none => throw (.invalidConnection (d.pathOf parent) (.notDriving sourceName name))

/-- The composite in which links from a port run, if any do. -/
def sourceLevel (d : Diagram α) (port : PortId) : Except (Failure α) (Option BlockId) := do
  let b ← d.block port.block
  return match port.side with
    | .output => b.parent
    | .input => if b.isComposite then some port.block else none

/-- The composite in which links to a port run, if any do. -/
def targetLevel (d : Diagram α) (port : PortId) : Except (Failure α) (Option BlockId) := do
  let b ← d.block port.block
  return match port.side with
    | .input => b.parent
    | .output => if b.isComposite then some port.block else none

/-- Refuses two ports that do not face each other inside one composite. -/
def checkLevels (d : Diagram α) (source target : PortId) : Except (Failure α) Unit := do
  let _ ← d.port source
  let _ ← d.port target
  let from? ← d.sourceLevel source
  let to? ← d.targetLevel target
  unless from?.isSome ∧ from? = to? do
    let place := match from? with
      | some level => d.pathOf level
      | none => ""
    throw (.invalidConnection place (.differentLevels (d.portPath source) (d.portPath target)))

end Diagram

namespace Edit

/-- Notes a link at both of its ends. -/
def link (source target : PortId) : Edit α Unit := do
  modifyPort source fun p => { p with outgoing := p.outgoing ++ [target] }
  modifyPort target fun p => { p with incoming := some source }

/-- Links two ports that face each other inside one composite. -/
def connectPorts (source target : PortId) : Edit α Unit := do
  let d ← diagram
  d.checkLevels source target
  let port ← d.port target
  if port.incoming.isSome then throw (.fanIn (d.pathOf target.block) port.name)
  link source target

/-- Takes the link between two ports away. -/
def disconnectPorts (source target : PortId) : Edit α Unit := do
  let d ← diagram
  let port ← d.port target
  unless port.incoming = some source do
    throw (.invalidConnection (d.pathOf target.block)
      (.notLinked (d.portPath source) (d.portPath target)))
  modifyPort source fun p => { p with outgoing := p.outgoing.filter (· ≠ target) }
  modifyPort target fun p => { p with incoming := none }

/-- Links two names inside a composite. -/
def connect (parent : BlockId) (source target : String) (output input : Option String) :
    Edit α Unit := do
  let d ← diagram
  let start ← d.sourceNamed parent source output
  let stop ← d.targetNamed parent target input
  connectPorts start stop

/-- Takes the link between two names inside a composite away. -/
def disconnect (parent : BlockId) (source target : String) (output input : Option String) :
    Edit α Unit := do
  let d ← diagram
  let start ← d.sourceNamed parent source output
  let stop ← d.linkedTarget parent start source target input
  disconnectPorts start stop

end Edit

end CausalBlocks
