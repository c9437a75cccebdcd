import CausalBlocks.Decimal.Reading

/-!
# Names of blocks and ports

A block is named by its place in the order of creation, a port by its block, its
side and its place on that side.
-/

namespace CausalBlocks

/-- The name of a block: how many blocks were created before it. -/
structure BlockId where
  index : Nat
  deriving DecidableEq, Repr

/-- The side of a block that a port is on. -/
inductive Side where
  | input
  | output
  deriving DecidableEq, Repr

/-- The name of a port. -/
structure PortId where
  block : BlockId
  side : Side
  index : Nat
  deriving DecidableEq, Repr

/-- How a block is called in messages when it has no name. -/
def BlockId.text (id : BlockId) : String := "B" ++ toString id.index

/-- How a side is called in messages. -/
def Side.text : Side → String
  | .input => "in"
  | .output => "out"

namespace PortId

/-- The input port of a block at a place. -/
abbrev input (block : BlockId) (index : Nat) : PortId := ⟨block, .input, index⟩

/-- The output port of a block at a place. -/
abbrev output (block : BlockId) (index : Nat) : PortId := ⟨block, .output, index⟩

/-- The port's place on its block. -/
def placeText (id : PortId) : String := id.side.text ++ toString id.index

/-- How a port is called in messages when it has no name. -/
def text (id : PortId) : String := id.block.text ++ ":" ++ id.placeText

end PortId

/-- What one iteration computes: a block, or the value of one of the model's
own ports. -/
inductive Node where
  | block (id : BlockId)
  | port (id : PortId)
  deriving DecidableEq, Repr

/-- How a node is called in messages. -/
def Node.text : Node → String
  | .block id => id.text
  | .port id => id.text

/-- The index that a text of digits stands for. -/
def readIndex? (digits : List Char) : Option Nat :=
  if digits ≠ [] ∧ digits.all Char.isDigit then some (Decimal.valueOf digits) else none

/-- The node that a text calls. -/
def Node.ofText? (text : String) : Option Node := do
  match text.toList with
  | 'B' :: rest =>
    let block : BlockId := ⟨← readIndex? (rest.takeWhile Char.isDigit)⟩
    match rest.dropWhile Char.isDigit with
    | [] => return .block block
    | ':' :: 'i' :: 'n' :: index => return .port (.input block (← readIndex? index))
    | ':' :: 'o' :: 'u' :: 't' :: index => return .port (.output block (← readIndex? index))
    | _ => none
  | _ => none

end CausalBlocks
