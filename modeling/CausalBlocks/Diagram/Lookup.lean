import CausalBlocks.Diagram.Basic

/-!
# Finding blocks and ports by path

A path is a list of names with points between them. Since a name may itself hold
points, each step down takes the longest run of segments that names a child.
-/

namespace CausalBlocks

/-- The pieces of a path between its points. -/
def pathSegments (path : String) : List String :=
  (path.toList.splitOn '.').map String.ofList

/-- Pieces put together to a path. -/
def joinPath (segments : List String) : String := ".".intercalate segments

variable {α : Type}

/-- The child named by the longest leading run of segments, and the length of
that run less one. -/
def Block.longestChild? (b : Block α) (segments : List String) : Option (Nat × BlockId) :=
  (List.range segments.length).reverse.findSome? fun k =>
    (b.child? (joinPath (segments.take (k + 1)))).map (k, ·)

namespace Diagram

/-- The block reached from another by a list of segments. -/
def findFrom (d : Diagram α) (path : String) (current : BlockId) (segments : List String) :
    Except (Failure α) BlockId :=
  if _ : segments = [] then .ok current
  else do
    let b ← d.block current
    match b.longestChild? segments with
    | none => throw (.blockNotFound path)
    | some (k, child) => d.findFrom path child (segments.drop (k + 1))
termination_by segments.length
decreasing_by
  have : 0 < segments.length := List.length_pos_iff.mpr ‹_›
  simp only [List.length_drop]
  omega

/-- The block with a path below the root; the empty path is the root's. -/
def find (d : Diagram α) (path : String) : Except (Failure α) BlockId :=
  if path.isEmpty then .ok d.root else d.findFrom path d.root (pathSegments path)

/-- The output port of a block with a name; `path` is for the failure. -/
def outputNamed (d : Diagram α) (id : BlockId) (path name : String) :
    Except (Failure α) PortId := do
  let b ← d.block id
  match b.outputIndex? name with
  | some index => return .output id index
  | none => throw (.portNotFound path name)

/-- The port that carries the signal with a name: one of the model's own ports,
the default output of a block, or a named output of one. -/
def findPort (d : Diagram α) (path : String) : Except (Failure α) PortId := do
  let model ← d.block d.root
  if let some index := model.outputIndex? path then return .output d.root index
  if let some index := model.inputIndex? path then return .input d.root index
  match d.find path with
  | .ok id => if id ≠ d.root then return ← d.outputNamed id path defaultOutput
  | .error _ => pure ()
  match (pathSegments path).reverse with
  | last :: before :: above =>
    let owner := joinPath (before :: above).reverse
    d.outputNamed (← d.find owner) owner last
  | _ => throw (.blockNotFound path)

/-- The port of a block with a name, inputs first. -/
def portNamed (d : Diagram α) (id : BlockId) (name : String) : Except (Failure α) PortId := do
  let b ← d.block id
  match b.inputIndex? name with
  | some index => return .input id index
  | none => d.outputNamed id (d.pathOf id) name

end Diagram

end CausalBlocks
