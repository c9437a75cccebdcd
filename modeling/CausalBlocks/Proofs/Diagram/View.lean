import CausalBlocks.Diagram.Samples

/-!
# What a diagram says about blocks and ports

A diagram is looked at through three functions: the place of each block in the
hierarchy, and both directions of the links between ports. Every change of a
diagram is described by what it does to them.
-/

namespace CausalBlocks

/-- What a block says about its place in the hierarchy. -/
structure Place where
  name : String
  parent : Option BlockId
  composite : Bool
  children : List BlockId
  childIndex : List (String × BlockId)
  portNames : List String

variable {α : Type}

/-- The place that a block says it has. -/
def Block.place (b : Block α) : Place where
  name := b.name
  parent := b.parent
  composite := b.isComposite
  children := b.children
  childIndex := b.childIndex
  portNames := (b.inputs ++ b.outputs).map Port.name

@[simp]
theorem Block.ports_output (b : Block α) : b.ports .output = b.outputs := rfl

theorem Block.takenNames_eq (b : Block α) :
    b.takenNames = b.place.childIndex.map Prod.fst ++ b.place.portNames := rfl

namespace Diagram

/-- The place of a block, if there is one. -/
def place? (d : Diagram α) (id : BlockId) : Option Place := (d.block? id).map Block.place

/-- The port that drives a port. -/
def incoming (d : Diagram α) (q : PortId) : Option PortId := (d.port? q).bind Port.incoming

/-- The ports that a port drives. -/
def outgoing (d : Diagram α) (p : PortId) : List PortId :=
  ((d.port? p).map Port.outgoing).getD []

/-! ### Reading -/

variable {d : Diagram α} {id x : BlockId} {q y : PortId} {b : Block α}

theorem block_eq_ok : d.block id = .ok b ↔ d.block? id = some b := by
  rw [block]
  cases d.block? id <;> simp

theorem block_eq (h : d.block? id = some b) : d.block id = .ok b := block_eq_ok.mpr h

theorem portIds_eq (h : d.block? id = some b) (side : Side) :
    d.portIds id side = (List.range (b.ports side).length).map (PortId.mk id side) := by
  rw [portIds, h]

theorem port?_eq (h : d.block? q.block = some b) : d.port? q = (b.ports q.side)[q.index]? := by
  rw [port?, h, Option.bind_some]

theorem port_eq_ok {p : Port α} : d.port q = .ok p ↔ d.port? q = some p := by
  rw [port, port?, block]
  cases d.block? q.block with
  | none => simp [bind, Except.bind]
  | some b =>
      simp only [bind, Except.bind, Option.bind_some]
      cases (b.ports q.side)[q.index]? <;> simp [pure, Except.pure, throw, throwThe, MonadExceptOf.throw]

theorem port_eq {p : Port α} (h : d.port? q = some p) : d.port q = .ok p := port_eq_ok.mpr h

theorem place?_eq (h : d.block? id = some b) : d.place? id = some b.place := by
  rw [place?, h, Option.map_some]

theorem place?_eq_some {p : Place} (h : d.place? id = some p) :
    ∃ b, d.block? id = some b ∧ b.place = p := Option.map_eq_some_iff.mp h

theorem block?_eq_none_of_size_le (h : d.blocks.size ≤ id.index) : d.block? id = none := by
  rw [block?, Array.getElem?_eq_none h, Option.join_none]

theorem lt_size_of_block? (h : d.block? id = some b) : id.index < d.blocks.size := by
  refine Nat.lt_of_not_le fun hle => ?_
  rw [block?_eq_none_of_size_le hle] at h
  cases h

theorem incoming_eq {p : Port α} (h : d.port? q = some p) : d.incoming q = p.incoming := by
  rw [incoming, h, Option.bind_some]

theorem outgoing_eq {p : Port α} (h : d.port? q = some p) : d.outgoing q = p.outgoing := by
  rw [outgoing, h, Option.map_some, Option.getD_some]

theorem port?_of_incoming {p : PortId} (h : d.incoming q = some p) :
    ∃ port, d.port? q = some port ∧ port.incoming = some p := Option.bind_eq_some_iff.mp h

theorem port?_of_mem_outgoing {p : PortId} (h : q ∈ d.outgoing p) :
    ∃ port, d.port? p = some port ∧ q ∈ port.outgoing := by
  rw [outgoing] at h
  cases hport : d.port? p with
  | none => simp [hport] at h
  | some port => exact ⟨port, rfl, by simpa [hport] using h⟩

theorem block?_of_port? {p : Port α} (h : d.port? q = some p) :
    ∃ b, d.block? q.block = some b ∧ (b.ports q.side)[q.index]? = some p :=
  Option.bind_eq_some_iff.mp h

/-! ### Changing a block -/

theorem block?_modifyBlock (f : Block α → Block α) :
    (d.modifyBlock id f).block? x = if x = id then (d.block? x).map f else d.block? x := by
  have hindex : id.index = x.index ↔ x = id := by
    cases id
    cases x
    simp [eq_comm]
  simp only [block?, modifyBlock, Array.getElem?_modify, hindex]
  split
  · cases d.blocks[x.index]? <;> rfl
  · rfl

/-- A change of a block's place is one of the view. -/
theorem place?_modifyBlock {f : Block α → Block α} {g : Place → Place}
    (hfg : ∀ b, (f b).place = g b.place) :
    (d.modifyBlock id f).place? = fun x => if x = id then (d.place? x).map g else d.place? x := by
  funext x
  rw [place?, block?_modifyBlock]
  split
  · rw [place?, Option.map_map, Option.map_map]
    congr 1
    funext b
    exact hfg b
  · rfl

theorem place?_modifyBlock_same {f : Block α → Block α}
    (hf : ∀ b, d.block? id = some b → (f b).place = b.place) :
    (d.modifyBlock id f).place? = d.place? := by
  funext x
  rw [place?, block?_modifyBlock, place?]
  split
  next hx =>
    rw [hx]
    cases hb : d.block? id with
    | none => rfl
    | some b => exact congrArg some (hf b hb)
  next => rfl

theorem port?_modifyBlock_same {f : Block α → Block α}
    (hf : ∀ b side, (f b).ports side = b.ports side) : (d.modifyBlock id f).port? = d.port? := by
  funext q
  rw [port?, port?, block?_modifyBlock]
  split
  · cases d.block? q.block with
    | none => rfl
    | some b => simp [hf]
  · rfl

theorem incoming_congr {d d' : Diagram α} (h : d'.port? = d.port?) : d'.incoming = d.incoming := by
  funext q
  rw [incoming, incoming, h]

theorem outgoing_congr {d d' : Diagram α} (h : d'.port? = d.port?) : d'.outgoing = d.outgoing := by
  funext q
  rw [outgoing, outgoing, h]

theorem size_modifyBlock (f : Block α → Block α) :
    (d.modifyBlock id f).blocks.size = d.blocks.size := by
  rw [modifyBlock, Array.size_modify]

theorem isSome_block?_modifyBlock (f : Block α → Block α) :
    ((d.modifyBlock id f).block? x).isSome = (d.block? x).isSome := by
  rw [block?_modifyBlock]
  split
  · exact Option.isSome_map
  · rfl

/-! ### Changing a port -/

theorem ports_mapPorts (side other : Side) (f : List (Port α) → List (Port α)) :
    (b.mapPorts side f).ports other = if other = side then f (b.ports other) else b.ports other := by
  cases side <;> cases other <;> rfl

theorem port?_modifyPort (f : Port α → Port α) :
    (d.modifyPort q f).port? y = if y = q then (d.port? y).map f else d.port? y := by
  obtain ⟨block, side, index⟩ := q
  obtain ⟨block', side', index'⟩ := y
  simp only [port?, modifyPort, block?_modifyBlock]
  cases hblock : d.block? block' with
  | none => split <;> simp
  | some b =>
      by_cases hb : block' = block
      · subst hb
        simp only [if_true, Option.map_some, Option.bind_some, ports_mapPorts]
        by_cases hs : side' = side
        · subst hs
          simp only [if_true, List.getElem?_modify, PortId.mk.injEq, true_and]
          by_cases hi : index = index'
          · subst hi; simp
          · simp [hi, eq_comm]
        · simp [hs]
      · simp [hb]

theorem place_mapPorts {f : List (Port α) → List (Port α)} (side : Side)
    (hf : ∀ ports, (f ports).map Port.name = ports.map Port.name) :
    (b.mapPorts side f).place = b.place := by
  cases side <;> simp [Block.mapPorts, Block.place, Block.isComposite, hf]

theorem map_name_modify {f : Port α → Port α} (hf : ∀ p, (f p).name = p.name)
    (ports : List (Port α)) (index : Nat) :
    (ports.modify index f).map Port.name = ports.map Port.name := by
  refine List.ext_getElem? fun i => ?_
  rw [List.getElem?_map, List.getElem?_map, List.getElem?_modify]
  cases ports[i]? with
  | none => rfl
  | some p => by_cases hi : index = i <;> simp [hi, hf]

theorem place?_modifyPort {f : Port α → Port α} (hf : ∀ p, (f p).name = p.name) :
    (d.modifyPort q f).place? = d.place? :=
  place?_modifyBlock_same fun _ _ => place_mapPorts q.side fun ports => map_name_modify hf ports _

theorem incoming_modifyPort (f : Port α → Port α) :
    (d.modifyPort q f).incoming y =
      if y = q then (d.port? q).bind fun p => (f p).incoming else d.incoming y := by
  rw [incoming, port?_modifyPort]
  split
  next h => rw [h, Option.bind_map]; rfl
  next => rfl

theorem outgoing_modifyPort (f : Port α → Port α) :
    (d.modifyPort q f).outgoing y =
      if y = q then ((d.port? q).map fun p => (f p).outgoing).getD [] else d.outgoing y := by
  rw [outgoing, port?_modifyPort]
  split
  next h => rw [h, Option.map_map]; rfl
  next => rfl

theorem size_modifyPort (f : Port α → Port α) :
    (d.modifyPort q f).blocks.size = d.blocks.size := size_modifyBlock _

/-! ### Changing every port -/

theorem block?_mapPorts (f : Port α → Port α) : (d.mapPorts f).block? x =
    (d.block? x).map fun b => { b with inputs := b.inputs.map f, outputs := b.outputs.map f } := by
  rw [block?, mapPorts, Array.getElem?_map, block?]
  cases d.blocks[x.index]? with
  | none => rfl
  | some b? => cases b? <;> rfl

theorem place?_mapPorts {f : Port α → Port α} (hf : ∀ p, (f p).name = p.name) :
    (d.mapPorts f).place? = d.place? := by
  funext x
  rw [place?, block?_mapPorts, Option.map_map, place?]
  congr 1
  funext b
  simp [Block.place, Block.isComposite, Function.comp_def, hf]

theorem port?_mapPorts (f : Port α → Port α) : (d.mapPorts f).port? y = (d.port? y).map f := by
  rw [port?, block?_mapPorts, port?]
  cases d.block? y.block with
  | none => rfl
  | some b => cases hside : y.side <;> simp [Block.ports]

theorem incoming_mapPorts {f : Port α → Port α} (hf : ∀ p, (f p).incoming = p.incoming) :
    (d.mapPorts f).incoming = d.incoming := by
  funext q
  rw [incoming, port?_mapPorts, Option.bind_map, incoming]
  congr 1
  funext p
  exact hf p

theorem outgoing_mapPorts {f : Port α → Port α} (hf : ∀ p, (f p).outgoing = p.outgoing) :
    (d.mapPorts f).outgoing = d.outgoing := by
  funext q
  rw [outgoing, port?_mapPorts, Option.map_map, outgoing]
  congr 2
  funext p
  exact hf p

end Diagram

end CausalBlocks
