import CausalBlocks.Proofs.Diagram.Alike
import CausalBlocks.Proofs.Diagram.Issuing

/-!
# Composites by blueprint

The ready-made composites are all made in one way: a composite, blocks in it, and links between
names. Where the names lead follows from the blueprint alone. So what is made has the blocks of
the blueprint at the places after its own, and links between just those ports that the names mean,
whatever diagram it is made in.
-/

namespace CausalBlocks

variable {α : Type}

/-- The block at a place inside a composite that was made with all its blocks. -/
def BlockId.inside (id : BlockId) (place : Nat) : BlockId := ⟨id.index + 1 + place⟩

theorem BlockId.inside_ne (id : BlockId) {place : Nat} : id.inside place ≠ id := by
  intro h
  have hindex : id.index + 1 + place = id.index := congrArg BlockId.index h
  omega

/-- An end of a link inside a composite: a port of its own, or a port of a block inside. -/
inductive Spot where
  | own (port : Nat)
  | inner (place port : Nat)
  deriving DecidableEq

namespace Spot

/-- The port at which a link starts. -/
def source (id : BlockId) : Spot → PortId
  | own port => .input id port
  | inner place port => .output (id.inside place) port

/-- The port at which a link ends. -/
def target (id : BlockId) : Spot → PortId
  | own port => .output id port
  | inner place port => .input (id.inside place) port

theorem target_injective (id : BlockId) : Function.Injective (target id) := by
  rintro (_ | _) (_ | _) h <;> simp_all [target, BlockId.inside]

end Spot

/-- A link inside a composite, from its source to its target. -/
abbrev Wire : Type := Spot × Spot

/-- What drives a spot. -/
def driver? (wires : List Wire) (spot : Spot) : Option Spot :=
  (wires.find? (·.2 = spot)).map Prod.fst

/-- The names of the ports of a composite, and its blocks in order. -/
structure Blueprint (α : Type) where
  inputs : List String
  outputs : List String
  blocks : List (String × Operator α)

namespace Blueprint

variable (bp : Blueprint α)

/-- The place of a block with a name. -/
def place? (name : String) : Option Nat := bp.blocks.findIdx? fun block => block.1 == name

/-- Where a link from a name starts. -/
def source? (name : String) : Option Spot :=
  match bp.inputs.findIdx? (· == name) with
  | some port => some (.own port)
  | none => do
    let place ← bp.place? name
    let block ← bp.blocks[place]?
    let port ← block.2.outputNames.findIdx? (· == defaultOutput)
    return .inner place port

/-- The first numbered input of the block at a place that no link ends at. -/
def free? (wires : List Wire) (place : Nat) (names : List String) : Option Nat :=
  (List.range names.length).findSome? fun n => do
    let port ← names.findIdx? (· == "IN" ++ toString (n + 1))
    if (driver? wires (.inner place port)).isNone then some port else none

/-- The input of the block at a place where a link ends. -/
def input? (wires : List Wire) (place : Nat) (names : List String) : Option String → Option Nat
  | some input => names.findIdx? (· == input)
  | none => free? wires place names

/-- Where a link to a name ends, among other links. -/
def target? (wires : List Wire) (name : String) (input : Option String) : Option Spot :=
  match bp.outputs.findIdx? (· == name) with
  | some port => some (.own port)
  | none => do
    let place ← bp.place? name
    let block ← bp.blocks[place]?
    let port ← input? wires place block.2.inputNames input
    return .inner place port

/-- The links after one more was made. -/
def wire? (wires : List Wire) (link : String × String × Option String) : Option (List Wire) := do
  let source ← bp.source? link.1
  let target ← bp.target? wires link.2.1 link.2.2
  return wires ++ [(source, target)]

/-- All links, made one after the other. -/
def wires? (links : List (String × String × Option String)) : Option (List Wire) :=
  links.foldlM bp.wire? []

variable {bp} {wires : List Wire} {name : String} {input : Option String} {spot : Spot}

/-- A link from a name starts at an input of the composite with the name, else at the first output
of the block with the name. -/
theorem source?_cases (h : bp.source? name = some spot) :
    (∃ port, bp.inputs.findIdx? (· == name) = some port ∧ spot = .own port) ∨
      bp.inputs.findIdx? (· == name) = none ∧ ∃ place block port, bp.place? name = some place ∧
        bp.blocks[place]? = some block ∧
          block.2.outputNames.findIdx? (· == defaultOutput) = some port ∧
            spot = .inner place port := by
  rw [source?] at h
  cases hown : bp.inputs.findIdx? (· == name) with
  | some port =>
      rw [hown] at h
      cases h
      exact .inl ⟨port, rfl, rfl⟩
  | none =>
      rw [hown] at h
      simp only [Option.bind_eq_bind, Option.bind_eq_some_iff] at h
      obtain ⟨place, hplace, block, hblock, port, hport, h⟩ := h
      cases h
      exact .inr ⟨rfl, place, block, port, hplace, hblock, hport, rfl⟩

/-- A link to a name ends at an output of the composite with the name, else at an input of the block
with the name. -/
theorem target?_cases (h : bp.target? wires name input = some spot) :
    (∃ port, bp.outputs.findIdx? (· == name) = some port ∧ spot = .own port) ∨
      bp.outputs.findIdx? (· == name) = none ∧ ∃ place block port, bp.place? name = some place ∧
        bp.blocks[place]? = some block ∧
          input? wires place block.2.inputNames input = some port ∧ spot = .inner place port := by
  rw [target?] at h
  cases hown : bp.outputs.findIdx? (· == name) with
  | some port =>
      rw [hown] at h
      cases h
      exact .inl ⟨port, rfl, rfl⟩
  | none =>
      rw [hown] at h
      simp only [Option.bind_eq_bind, Option.bind_eq_some_iff] at h
      obtain ⟨place, hplace, block, hblock, port, hport, h⟩ := h
      cases h
      exact .inr ⟨rfl, place, block, port, hplace, hblock, hport, rfl⟩

end Blueprint

/-! ### Blocks as they stand -/

/-- A block in a composite, with the ports of its operator and without a rate. -/
structure Block.Stands (b : Block α) (parent : BlockId) (op : Operator α) : Prop where
  operator : b.operator = op
  rate : b.rate = none
  parent : b.parent = some parent
  inputs : b.inputs.map Port.name = op.inputNames
  outputs : b.outputs.map Port.name = op.outputNames

/-- The same block, but for the links and samples of its ports. -/
structure Block.Rewired (b b' : Block α) : Prop where
  rest : b' = { b with inputs := b'.inputs, outputs := b'.outputs }
  inputs : b'.inputs.map Port.name = b.inputs.map Port.name
  outputs : b'.outputs.map Port.name = b.outputs.map Port.name

namespace Block

variable {b b' b'' : Block α}

theorem Rewired.refl (b : Block α) : b.Rewired b := ⟨rfl, rfl, rfl⟩

theorem Rewired.trans (h : b.Rewired b') (h' : b'.Rewired b'') : b.Rewired b'' :=
  ⟨by rw [h'.rest, h.rest], h'.inputs.trans h.inputs, h'.outputs.trans h.outputs⟩

theorem Rewired.stands {parent : BlockId} {op : Operator α} (h : b.Rewired b')
    (hb : b.Stands parent op) : b'.Stands parent op where
  operator := by rw [h.rest]; exact hb.operator
  rate := by rw [h.rest]; exact hb.rate
  parent := by rw [h.rest]; exact hb.parent
  inputs := h.inputs.trans hb.inputs
  outputs := h.outputs.trans hb.outputs

theorem stands_make (name : String) (op : Operator α) (parent : BlockId) :
    (make name op (some parent) op.inputNames op.outputNames).Stands parent op where
  operator := rfl
  rate := rfl
  parent := rfl
  inputs := (map_name_make _ _ _ _ _).1
  outputs := (map_name_make _ _ _ _ _).2

theorem inputIndex?_eq (name : String) :
    b.inputIndex? name = (b.inputs.map Port.name).findIdx? (· == name) := by
  rw [List.findIdx?_map]
  rfl

theorem outputIndex?_eq (name : String) :
    b.outputIndex? name = (b.outputs.map Port.name).findIdx? (· == name) := by
  rw [List.findIdx?_map]
  rfl

end Block

namespace Diagram

variable {d d' : Diagram α} {id x parent : BlockId} {b b' : Block α} {source target : PortId}

theorem exists_rewired_modifyPort {p : PortId} {f : Port α → Port α} (hf : ∀ p, (f p).name = p.name)
    (hb : d.block? x = some b) : ∃ b', (d.modifyPort p f).block? x = some b' ∧ b.Rewired b' := by
  rw [modifyPort, block?_modifyBlock, hb]
  split
  · refine ⟨_, rfl, ?_⟩
    cases p.side
    · exact ⟨rfl, map_name_modify hf _ _, rfl⟩
    · exact ⟨rfl, rfl, map_name_modify hf _ _⟩
  · exact ⟨b, rfl, .refl b⟩

theorem exists_rewired_linked (hb : d.block? x = some b) :
    ∃ b', (d.linked source target).block? x = some b' ∧ b.Rewired b' := by
  obtain ⟨b₁, hb₁, h₁⟩ := exists_rewired_modifyPort (p := source)
    (f := fun p => { p with outgoing := p.outgoing ++ [target] }) (fun _ => rfl) hb
  obtain ⟨b₂, hb₂, h₂⟩ := exists_rewired_modifyPort (p := target)
    (f := fun p => { p with incoming := some source }) (fun _ => rfl) hb₁
  exact ⟨b₂, hb₂, h₁.trans h₂⟩

theorem size_linked : (d.linked source target).blocks.size = d.blocks.size := by
  rw [linked, size_modifyPort, size_modifyPort]

theorem block?_adopted_of_ne {name : String} (hb : d.block? x = some b) (hx : x ≠ parent) :
    (d.adopted parent name [b']).block? x = some b := by
  rw [adopted, block?_modifyBlock, if_neg hx, block?_append, if_pos (lt_size_of_block? hb), hb]

theorem block?_adopted_parent {name : String} (hb : d.block? parent = some b) :
    (d.adopted parent name [b']).block? parent = some { b with
      children := b.children ++ [⟨d.blocks.size⟩]
      childIndex := b.childIndex ++ [(name, ⟨d.blocks.size⟩)] } := by
  rw [adopted, block?_modifyBlock, if_pos rfl, block?_append, if_pos (lt_size_of_block? hb), hb]
  rfl

theorem block?_adopted_new {name : String} (hparent : (d.block? parent).isSome) :
    (d.adopted parent name [b]).block? ⟨d.blocks.size⟩ = some b := by
  obtain ⟨up, hup⟩ := Option.isSome_iff_exists.mp hparent
  have hne : (⟨d.blocks.size⟩ : BlockId) ≠ parent := by
    rintro rfl
    exact Nat.lt_irrefl _ (lt_size_of_block? hup)
  rw [adopted, block?_modifyBlock, if_neg hne, block?_append, if_neg (Nat.lt_irrefl _), Nat.sub_self]
  rfl

/-- A new block comes without links. -/
theorem incoming_adopted_make {name : String} {op : Operator α} {inputs outputs : List String} :
    (d.adopted parent name [.make name op (some parent) inputs outputs]).incoming = d.incoming := by
  funext q
  rw [incoming_adopted]
  dsimp only
  split
  next => rfl
  next hnew =>
    have hnone : d.block? q.block = none := block?_eq_none_of_size_le (Nat.le_of_not_lt hnew)
    rw [incoming_make, incoming, port?, hnone]
    rfl

/-! ### What is being made -/

/-- A composite that was made from a blueprint, with the links made so far. -/
structure Laid (d : Diagram α) (id : BlockId) (bp : Blueprint α) (wires : List Wire) : Prop where
  size : d.blocks.size = id.index + 1 + bp.blocks.length
  composite : ∃ b, d.block? id = some b ∧ b.inputs.map Port.name = bp.inputs ∧
    b.outputs.map Port.name = bp.outputs ∧ ∀ name, b.child? name = (bp.place? name).map id.inside
  blocks : ∀ place name op, bp.blocks[place]? = some (name, op) →
    ∃ b, d.block? (id.inside place) = some b ∧ b.Stands id op
  wires : ∀ spot, d.incoming (spot.target id) = (driver? wires spot).map (Spot.source id)

namespace Laid

variable {bp : Blueprint α} {wires wires' : List Wire} {name : String} {op : Operator α}
  {place : Nat} {spot : Spot} {child : BlockId}

theorem childNamed_eq (h : d.Laid id bp wires) (hplace : bp.place? name = some place) :
    d.childNamed id name = .ok (id.inside place) := by
  obtain ⟨b, hb, _, _, hchild⟩ := h.composite
  refine Except.bind_eq_ok.mpr ⟨b, block_eq hb, ?_⟩
  rw [hchild, hplace]
  rfl

/-- A link from a name starts where the blueprint says. -/
theorem sourceNamed_eq (h : d.Laid id bp wires) (hspot : bp.source? name = some spot) :
    d.sourceNamed id name none = .ok (spot.source id) := by
  obtain ⟨b, hb, hinputs, _, _⟩ := h.composite
  refine Except.bind_eq_ok.mpr ⟨b, block_eq hb, ?_⟩
  rw [Block.inputIndex?_eq, hinputs]
  obtain ⟨port, hown, rfl⟩ | ⟨hown, place, block, port, hplace, hblock, hport, rfl⟩ :=
    Blueprint.source?_cases hspot
  · rw [hown]
    rfl
  · obtain ⟨inner, hinner, hstands⟩ := h.blocks place _ _ hblock
    rw [hown]
    refine Except.bind_eq_ok.mpr ⟨_, h.childNamed_eq hplace, Except.bind_eq_ok.mpr
      ⟨inner, block_eq hinner, ?_⟩⟩
    rw [Block.outputIndex?_eq, hstands.outputs, Option.getD_none, hport]
    rfl

/-- The first free input of a block is the one that no link ends at. -/
theorem freeInput? (h : d.Laid id bp wires) (hb : d.block? (id.inside place) = some b)
    (hstands : b.Stands id op) : b.freeInput? = Blueprint.free? wires place op.inputNames := by
  have hlength : b.inputs.length = op.inputNames.length := by
    rw [← hstands.inputs, List.length_map]
  rw [Block.freeInput?, Blueprint.free?, hlength]
  congr 1
  funext n
  rw [Block.inputIndex?_eq, hstands.inputs]
  cases hport : op.inputNames.findIdx? (· == "IN" ++ toString (n + 1)) with
  | none => rfl
  | some index =>
      have hindex : index < b.inputs.length := hlength ▸ (List.findIdx?_eq_some_iff_getElem.mp hport).1
      have hwires := h.wires (.inner place index)
      rw [Spot.target, incoming_eq (p := b.inputs[index])] at hwires
      · simp only [Option.bind_eq_bind, Option.bind_some, List.getElem?_eq_getElem hindex, hwires,
          Option.isNone_map]
      · rw [port?_eq hb]
        exact List.getElem?_eq_getElem hindex

/-- A link to a name ends where the blueprint says. -/
theorem targetNamed (h : d.Laid id bp wires) {input : Option String}
    (hspot : bp.target? wires name input = some spot)
    (hok : d.targetNamed id name input = .ok target) : target = spot.target id := by
  obtain ⟨b, hb, _, houtputs, _⟩ := h.composite
  rw [Diagram.targetNamed, block_eq hb] at hok
  obtain ⟨_, ⟨⟩, hok⟩ := Except.bind_eq_ok.mp hok
  rw [Block.outputIndex?_eq, houtputs] at hok
  obtain ⟨port, hown, rfl⟩ | ⟨hown, place, ⟨_, op⟩, port, hplace, hblock, hport, rfl⟩ :=
    Blueprint.target?_cases hspot
  · rw [hown] at hok
    cases hok
    rfl
  · rw [hown] at hok
    obtain ⟨child, hchild, hok⟩ := Except.bind_eq_ok.mp hok
    cases (h.childNamed_eq hplace).symm.trans hchild
    obtain ⟨inner, hinner, hstands⟩ := h.blocks place _ op hblock
    rw [inputNamed, block_eq hinner] at hok
    obtain ⟨_, ⟨⟩, hok⟩ := Except.bind_eq_ok.mp hok
    cases input with
    | some input =>
        rw [Blueprint.input?] at hport
        dsimp only at hok
        rw [Block.inputIndex?_eq, hstands.inputs, hport] at hok
        cases hok
        rfl
    | none =>
        rw [Blueprint.input?] at hport
        dsimp only at hok
        split at hok
        next => cases hok
        next =>
          rw [h.freeInput? hinner hstands, hport] at hok
          cases hok
          rfl

/-- One more block. -/
theorem addBlock {e e' : Editor α} {child : BlockId} (h : e.diagram.Laid id bp [])
    (hname : name ≠ "") (hok : Edit.addBlock id name op e = .ok child e') :
    e'.diagram.Laid id { bp with blocks := bp.blocks ++ [(name, op)] } [] := by
  obtain ⟨_, name', _, _, ⟨_, hgiven⟩, _, hdiagram⟩ := Edit.insert_ok hok
  cases hgiven hname
  obtain ⟨b, hb, hinputs, houtputs, hchild⟩ := h.composite
  have hnew : (⟨e.diagram.blocks.size⟩ : BlockId) = id.inside bp.blocks.length := by
    rw [h.size, BlockId.inside]
  rw [hdiagram]
  refine ⟨?_, ⟨_, block?_adopted_parent hb, hinputs, houtputs, fun other => ?_⟩,
    fun place other op' hplace => ?_, fun spot => ?_⟩
  · rw [size_adopted, h.size, List.length_append]
    rfl
  · have hbefore : b.childIndex.lookup other = _ := hchild other
    rw [Block.child?, List.lookup_append, hbefore, hnew, Blueprint.place?, Blueprint.place?,
      List.findIdx?_append]
    cases bp.blocks.findIdx? (·.1 == other) with
    | some place => rfl
    | none =>
        by_cases hother : other = name
        · simp [hother]
        · simp [hother, Ne.symm hother]
  · rw [List.getElem?_append] at hplace
    split at hplace
    next =>
      obtain ⟨inner, hinner, hstands⟩ := h.blocks place other op' hplace
      exact ⟨inner, block?_adopted_of_ne hinner id.inside_ne, hstands⟩
    next hlast =>
      rw [List.getElem?_singleton] at hplace
      split at hplace
      next hfirst =>
        cases hplace
        have hplace : place = bp.blocks.length := by omega
        refine ⟨_, ?_, Block.stands_make name op id⟩
        rw [hplace, ← hnew]
        exact block?_adopted_new (by rw [hb]; rfl)
      next => cases hplace
  · rw [incoming_adopted_make]
    exact h.wires spot

/-- One more link. -/
theorem connect {e e' : Editor α} {link : String × String × Option String}
    (h : e.diagram.Laid id bp wires) (hwire : bp.wire? wires link = some wires')
    (hok : Edit.connect id link.1 link.2.1 none link.2.2 e = .ok () e') :
    e'.diagram.Laid id bp wires' := by
  simp only [Blueprint.wire?, Option.bind_eq_bind, Option.bind_eq_some_iff] at hwire
  obtain ⟨source, hsource, target, htarget, hwire⟩ := hwire
  cases hwire
  obtain ⟨start, stop, hstart, hstop, hok⟩ := Edit.connect_ok hok
  cases (h.sourceNamed_eq hsource).symm.trans hstart
  cases h.targetNamed htarget hstop
  obtain ⟨_, hlive, _, hfree, hdiagram⟩ := Edit.connectPorts_ok hok
  rw [h.wires, Option.map_eq_none_iff, driver?, Option.map_eq_none_iff] at hfree
  rw [hdiagram]
  refine ⟨size_linked.trans h.size, ?_, fun place name op hplace => ?_, fun spot => ?_⟩
  · obtain ⟨b, hb, hinputs, houtputs, hchild⟩ := h.composite
    obtain ⟨b', hb', hrewired⟩ := exists_rewired_linked hb
    refine ⟨b', hb', hrewired.inputs.trans hinputs, hrewired.outputs.trans houtputs, fun name => ?_⟩
    rw [← hchild name, hrewired.rest]
    rfl
  · obtain ⟨b, hb, hstands⟩ := h.blocks place name op hplace
    obtain ⟨b', hb', hrewired⟩ := exists_rewired_linked hb
    exact ⟨b', hb', hrewired.stands hstands⟩
  · rw [incoming_linked hlive]
    dsimp only
    rw [driver?, List.find?_append]
    by_cases hspot : spot = target
    · rw [if_pos (congrArg _ hspot), hspot, hfree]
      simp
    · rw [if_neg fun hsame => hspot (Spot.target_injective id hsame), h.wires, driver?]
      simp [Ne.symm hspot]

end Laid

end Diagram

namespace Edit

variable {e e' : Editor α} {parent id : BlockId} {name type : String} {bp : Blueprint α}
  {wires : List Wire}

/-- A composite before anything is put in it. -/
theorem addComposite_laid {inputs outputs : List String}
    (hok : addComposite parent name type inputs outputs e = .ok id e') :
    e'.diagram.Laid id ⟨inputs, outputs, []⟩ [] := by
  obtain ⟨composite, name', hparent, _, _, _, hdiagram⟩ := insert_ok hok
  cases insert_numbered parent name _ inputs outputs e id e' hok
  have hlive : (e.diagram.block? parent).isSome := by rw [hparent]; rfl
  rw [hdiagram]
  obtain ⟨hinputs, houtputs⟩ := Block.map_name_make name' (.composite type) (some parent) inputs outputs
  refine ⟨Diagram.size_adopted, ⟨_, Diagram.block?_adopted_new hlive, hinputs, houtputs,
    fun _ => rfl⟩, fun place name op hplace => ?_, fun spot => ?_⟩
  · cases hplace
  · have hnew : e.diagram.block? (spot.target ⟨e.diagram.blocks.size⟩).block = none := by
      refine Diagram.block?_eq_none_of_size_le ?_
      cases spot with
      | own port => exact Nat.le_refl _
      | inner place port => exact Nat.le_add_right_of_le (Nat.le_succ _)
    rw [Diagram.incoming_adopted_make, Diagram.incoming, Diagram.port?, hnew]
    rfl

theorem addAll_laid {inputs outputs : List String} {blocks : List (String × Operator α)}
    (h : e.diagram.Laid id ⟨inputs, outputs, []⟩ []) (hnames : ∀ block ∈ blocks, block.1 ≠ "")
    (hok : addAll id blocks e = .ok () e') : e'.diagram.Laid id ⟨inputs, outputs, blocks⟩ [] := by
  -- the blocks made so far, and those still to be made
  let P (rest : List (String × Operator α)) (e : Editor α) : Prop :=
    ∃ made, made ++ rest = blocks ∧ e.diagram.Laid id ⟨inputs, outputs, made⟩ []
  have hend : P [] e' := by
    refine EStateM.forM_ok (P := P) ?_ ⟨[], rfl, h⟩ hok
    rintro ⟨name, op⟩ rest e e' ⟨made, hmade, h⟩ hok
    obtain ⟨child, hok⟩ := EStateM.discard_eq_ok.mp hok
    have hname : name ≠ "" := hnames (name, op) (by rw [← hmade]; simp)
    exact ⟨made ++ [(name, op)], by rw [← hmade, List.append_assoc]; rfl, h.addBlock hname hok⟩
  obtain ⟨made, hmade, h⟩ := hend
  rwa [List.append_nil, hmade] at *

theorem connectAll_laid {links : List (String × String × Option String)}
    (h : e.diagram.Laid id bp []) (hwires : bp.wires? links = some wires)
    (hok : connectAll id links e = .ok () e') : e'.diagram.Laid id bp wires := by
  let P (rest : List (String × String × Option String)) (e : Editor α) : Prop :=
    ∃ made, rest.foldlM bp.wire? made = some wires ∧ e.diagram.Laid id bp made
  have hend : P [] e' := by
    refine EStateM.forM_ok (P := P) ?_ ⟨[], hwires, h⟩ hok
    rintro link rest e e' ⟨made, hmade, h⟩ hok
    rw [List.foldlM_cons] at hmade
    obtain ⟨more, hmore, hrest⟩ := Option.bind_eq_some_iff.mp hmade
    exact ⟨more, hrest, h.connect hmore hok⟩
  obtain ⟨made, hmade, h⟩ := hend
  cases hmade
  exact h

/-- What is made by a blueprint is as the blueprint says. -/
theorem filled_laid {links : List (String × String × Option String)}
    (hnames : ∀ block ∈ bp.blocks, block.1 ≠ "") (hwires : bp.wires? links = some wires)
    (hok : (do
      let id ← addComposite parent name type bp.inputs bp.outputs
      addAll id bp.blocks
      connectAll id links
      return id) e = .ok id e') : e'.diagram.Laid id bp wires := by
  simp only [EStateM.bind_eq_ok, EStateM.pure_eq_ok] at hok
  obtain ⟨_, _, hcomposite, _, _, hblocks, _, _, hlinks, rfl, rfl⟩ := hok
  exact connectAll_laid (addAll_laid (addComposite_laid hcomposite) hnames hblocks) hwires hlinks

end Edit

/-! ### What stays -/

namespace DiagramCall

/-- A call that adds blocks and links and does nothing else. -/
def Adding : DiagramCall α → Prop
  | addBlock .. | addComposite .. | connectPorts .. | connect .. | addIncrement .. | addDerivator ..
  | addIntegrator .. | addFixedRateClock .. => True
  | _ => False

variable [Scalar α] {P : Diagram α → Prop} (h : Edit.KeptByAdding P) {e : Editor α}
include h

theorem perform_keeps {call : DiagramCall α} (hadding : call.Adding) (he : P e.diagram) :
    P (call.perform e).state.diagram := by
  cases call with
  | addBlock parent name operator => exact (h.addBlock parent name operator).discard e he
  | addComposite parent name type inputs outputs =>
      exact (h.addComposite parent name type inputs outputs).discard e he
  | connectPorts source target => exact h.connectPorts source target e he
  | connect parent source target output input =>
      exact h.connect parent source target output input e he
  | addIncrement parent name => exact (h.addIncrement parent name).discard e he
  | addDerivator parent name => exact (h.addDerivator parent name).discard e he
  | addIntegrator parent name => exact (h.addIntegrator parent name).discard e he
  | addFixedRateClock parent stem step start =>
      exact (h.addFixedRateClock parent stem step start).discard e he
  | _ => exact hadding.elim

theorem performAll_keeps {calls : List (DiagramCall α)} (hadding : ∀ call ∈ calls, call.Adding)
    (he : P e.diagram) : P (Diagram.performAll e calls).diagram := by
  induction calls generalizing e with
  | nil => exact he
  | cons call rest ih =>
      obtain ⟨hfirst, hrest⟩ := List.forall_mem_cons.mp hadding
      exact ih hrest (perform_keeps h hfirst he)

end DiagramCall

namespace Diagram

variable {d d₁ d' : Diagram α} {id x : BlockId} {b : Block α} {bp : Blueprint α}
  {wires : List Wire}

/-- The inside of a composite is there in another diagram: the blocks in it with their operators,
and the links between them. -/
structure Intact (d d' : Diagram α) (id : BlockId) : Prop where
  blocks : ∀ x b, d.block? x = some b → b.parent = some id →
    ∃ b', d'.block? x = some b' ∧ b'.operator = b.operator ∧ b'.parent = some id
  inputs : ∀ x b index source, d.block? x = some b → b.parent = some id →
    d.incoming (.input x index) = some source → d'.incoming (.input x index) = some source
  outputs : ∀ index source, d.incoming (.output id index) = some source →
    d'.incoming (.output id index) = some source

/-- No block in a composite has a rate. -/
def Unrated (d : Diagram α) (id : BlockId) : Prop :=
  AllBlocks (fun b => b.parent = some id → b.rate = none) d

theorem Unrated.sameShape (h : d.Unrated id) (hshape : d.SameShape d') : d'.Unrated id := by
  intro x b' hb' hparent'
  obtain ⟨b, hb, hbare⟩ := hshape.block?_bare hb'
  have hparent : b.bare.parent = b'.bare.parent := by rw [hbare]
  have hrate : b.bare.rate = b'.bare.rate := by rw [hbare]
  exact hrate.symm.trans (h x b hb (hparent.trans hparent'))

namespace Intact

theorem refl (d : Diagram α) (id : BlockId) : d.Intact d id where
  blocks _ b hb hparent := ⟨b, hb, rfl, hparent⟩
  inputs _ _ _ _ _ _ h := h
  outputs _ _ h := h

/-- Another change of the diagram that keeps its blocks and links. -/
theorem trans_of_keeps (h : d.Intact d₁ id)
    (hblocks : ∀ x b, d₁.block? x = some b →
      ∃ b', d'.block? x = some b' ∧ b'.operator = b.operator ∧ b'.parent = b.parent)
    (hlinks : ∀ q p, d₁.incoming q = some p → d'.incoming q = some p) : d.Intact d' id where
  blocks x b hb hparent := by
    obtain ⟨b₁, hb₁, hoperator, hparent₁⟩ := h.blocks x b hb hparent
    obtain ⟨b', hb', hsame, hparent'⟩ := hblocks x b₁ hb₁
    exact ⟨b', hb', hsame.trans hoperator, hparent'.trans hparent₁⟩
  inputs x b index source hb hparent hlink :=
    hlinks _ _ (h.inputs x b index source hb hparent hlink)
  outputs index source hlink := hlinks _ _ (h.outputs index source hlink)

theorem sameShape (h : d.Intact d₁ id) (hshape : d₁.SameShape d') : d.Intact d' id := by
  refine h.trans_of_keeps (fun x b hb => ?_) fun q p hqp => ?_
  · obtain ⟨b', hb', hbare⟩ := hshape.symm.block?_bare hb
    have hoperator : b'.bare.operator = b.bare.operator := by rw [hbare]
    have hparent : b'.bare.parent = b.bare.parent := by rw [hbare]
    exact ⟨b', hb', hoperator, hparent⟩
  · rwa [hshape.incoming]

/-- Building more, in the composite or elsewhere, leaves its inside as it is. -/
theorem keptByAdding (d : Diagram α) (id : BlockId) : Edit.KeptByAdding fun d' => d.Intact d' id := by
  have hinsert (parent : BlockId) (name : String) (operator : Operator α)
      (inputs outputs : List String) :
      Edit.Keeps (fun d' => d.Intact d' id) (Edit.insert parent name operator inputs outputs) := by
    refine .of_ok (fun d' => Edit.insert_atomic d' parent name operator inputs outputs)
      fun e _ e' h hok => ?_
    obtain ⟨composite, name', hparent, _, _, _, hdiagram⟩ := Edit.insert_ok hok
    rw [hdiagram]
    refine h.trans_of_keeps (fun x b hb => ?_) fun q p hqp => ?_
    · by_cases hx : x = parent
      · subst hx
        exact ⟨_, block?_adopted_parent hb, rfl, rfl⟩
      · exact ⟨b, block?_adopted_of_ne hb hx, rfl, rfl⟩
    · rwa [incoming_adopted_make]
  refine ⟨fun parent name operator => hinsert parent name operator _ _,
    fun parent name _ inputs outputs => hinsert parent name _ inputs outputs,
    fun source target => ?_⟩
  refine .of_ok (fun d' => Edit.connectPorts_atomic d' source target) fun e _ e' h hok => ?_
  obtain ⟨_, hlive, _, hfree, hdiagram⟩ := Edit.connectPorts_ok hok
  rw [hdiagram]
  refine h.trans_of_keeps (fun x b hb => ?_) fun q p hqp => ?_
  · obtain ⟨b', hb', hrewired⟩ := exists_rewired_linked hb
    exact ⟨b', hb', by rw [hrewired.rest], by rw [hrewired.rest]⟩
  · -- a new link ends where none did
    rw [incoming_linked hlive]
    dsimp only
    rw [if_neg, hqp]
    rintro rfl
    cases hfree.symm.trans hqp

end Intact

/-- A composite that holds the blocks of a blueprint, without rates, and the links between them. -/
structure Filled (d : Diagram α) (id : BlockId) (bp : Blueprint α) (wires : List Wire) : Prop where
  blocks : ∀ place name op, bp.blocks[place]? = some (name, op) →
    ∃ b, d.block? (id.inside place) = some b ∧ b.operator = op ∧ b.rate = none
  wires : ∀ spot source, driver? wires spot = some source →
    d.incoming (spot.target id) = some (source.source id)

/-- What was made by a blueprint and left intact is filled as the blueprint says. -/
theorem Laid.filled (h : d₁.Laid id bp wires) (hintact : d₁.Intact d id) (hunrated : d.Unrated id) :
    d.Filled id bp wires := by
  constructor
  case blocks =>
    intro place name op hplace
    obtain ⟨b₁, hb₁, hstands⟩ := h.blocks place name op hplace
    obtain ⟨b, hb, hoperator, hparent⟩ := hintact.blocks _ b₁ hb₁ hstands.parent
    exact ⟨b, hb, hoperator.trans hstands.operator, hunrated _ b hb hparent⟩
  case wires =>
    intro spot source hdriver
    have hlink := h.wires spot
    rw [hdriver, Option.map_some] at hlink
    cases spot with
    | own port => exact hintact.outputs port _ hlink
    | inner place port =>
        obtain ⟨_, hport, _⟩ := port?_of_incoming hlink
        obtain ⟨b, hb, _⟩ := block?_of_port? hport
        have hplace : place < bp.blocks.length := by
          have hlt : id.index + 1 + place < d₁.blocks.size := lt_size_of_block? hb
          rw [h.size] at hlt
          omega
        obtain ⟨b', hb', hstands⟩ := h.blocks place _ _ (List.getElem?_eq_getElem hplace)
        exact hintact.inputs _ b' port _ hb' hstands.parent hlink

end Diagram

end CausalBlocks
