import CausalBlocks.Proofs.Diagram.Construction
import CausalBlocks.Proofs.Diagram.Samples

/-!
# Properties of every block

What is true of a new block, and does not change when the block is moved or linked,
is true of every block that building makes. Three such properties matter to a run:
that a primitive has the outputs of its operator, and its inputs under their names,
and that there are no samples.
-/

namespace CausalBlocks

variable {α β : Type}

/-- Properties of the blocks at given places that they keep when they are moved or linked. -/
structure Block.Enduring (Q : BlockId → Block α → Prop) : Prop where
  moved : ∀ id b name parent children childIndex, Q id b →
    Q id { b with name, parent, children, childIndex }
  linked : ∀ id b side index (f : Port α → Port α),
    (∀ p, (f p).name = p.name ∧ (f p).history = p.history) → Q id b →
      Q id (b.mapPorts side fun ports => ports.modify index f)

/-- A property that a new block has, and keeps when it is moved or linked. -/
structure Block.Lasting (Q : Block α → Prop) : Prop where
  made : ∀ name operator parent inputs outputs,
    (operator.isComposite = true ∨ inputs = operator.inputNames ∧ outputs = operator.outputNames) →
      Q (.make name operator parent inputs outputs)
  enduring : Enduring fun _ => Q

/-- A primitive has the outputs of its operator. -/
def Block.Fitted (b : Block α) : Prop :=
  b.isComposite = false → b.outputs.length = b.operator.outputNames.length

/-- A primitive has the inputs of its operator. -/
def Block.Ported (b : Block α) : Prop :=
  b.isComposite = false → b.inputs.map Port.name = b.operator.inputNames

instance (b : Block α) : Decidable b.Ported :=
  inferInstanceAs (Decidable (b.isComposite = false → b.inputs.map Port.name = b.operator.inputNames))

/-- A block has no samples. -/
def Block.Unsampled (b : Block α) : Prop := ∀ side, ∀ p ∈ b.ports side, p.history = #[]

namespace Diagram

/-- Every block has the property of its place. -/
def EachBlock (Q : BlockId → Block α → Prop) (d : Diagram α) : Prop :=
  ∀ id b, d.block? id = some b → Q id b

/-- Every block has a property. -/
def AllBlocks (Q : Block α → Prop) (d : Diagram α) : Prop := ∀ id b, d.block? id = some b → Q b

/-- Every primitive has the outputs of its operator. -/
def Fitted (d : Diagram α) : Prop := AllBlocks Block.Fitted d

/-- Every primitive has the inputs of its operator. -/
def Ported (d : Diagram α) : Prop := AllBlocks Block.Ported d

/-- No port has a sample. -/
def Unsampled (d : Diagram α) : Prop := AllBlocks Block.Unsampled d

variable {Q : BlockId → Block α → Prop} {d d' : Diagram α}

theorem EachBlock.modifyBlock (h : EachBlock Q d) {id : BlockId} {f : Block α → Block α}
    (hf : ∀ b, d.block? id = some b → Q id b → Q id (f b)) : EachBlock Q (d.modifyBlock id f) := by
  intro x b hb
  rw [block?_modifyBlock] at hb
  split at hb
  next hx =>
    subst hx
    obtain ⟨old, hold, rfl⟩ := Option.map_eq_some_iff.mp hb
    exact hf old hold (h x old hold)
  next => exact h x b hb

theorem EachBlock.modifyPort (h : EachBlock Q d) (hQ : Block.Enduring Q) {p : PortId}
    {f : Port α → Port α} (hf : ∀ p, (f p).name = p.name ∧ (f p).history = p.history) :
    EachBlock Q (d.modifyPort p f) :=
  h.modifyBlock fun b _ hb => hQ.linked _ b _ _ f hf hb

theorem AllBlocks.of_mem {Q : Block α → Prop} (h : ∀ b? ∈ d.blocks.toList, ∀ b ∈ b?, Q b) :
    AllBlocks Q d := by
  intro id b hb
  obtain ⟨b?, hb?, hid⟩ := Option.bind_eq_some_iff.mp (Option.bind_id_eq_join.trans hb)
  exact h b? (Array.mem_toList_iff.mpr (Array.mem_of_getElem? hb?)) b hid

theorem AllBlocks.modifyBlock {Q : Block α → Prop} (h : AllBlocks Q d) {id : BlockId}
    {f : Block α → Block α} (hf : ∀ b, d.block? id = some b → Q b → Q (f b)) :
    AllBlocks Q (d.modifyBlock id f) := EachBlock.modifyBlock h hf

theorem AllBlocks.adopted {Q : Block α → Prop} (h : AllBlocks Q d) (hQ : Block.Lasting Q)
    {parent : BlockId} {name : String} {blocks : List (Block α)} (hblocks : ∀ b ∈ blocks, Q b) :
    AllBlocks Q (d.adopted parent name blocks) := by
  refine modifyBlock (fun id b hb => ?_) fun b _ hb => hQ.enduring.moved parent b _ _ _ _ hb
  rw [block?_append] at hb
  split at hb
  next => exact h id b hb
  next => exact hblocks b (List.mem_of_getElem? hb)

end Diagram

namespace Block.Enduring

open Edit

variable {Q : BlockId → Block α → Prop} (hQ : Block.Enduring Q)
include hQ

theorem keptByLinking : KeptByLinking (Diagram.EachBlock Q) := fun _ _ _ h hf => h.modifyPort hQ hf

theorem keptByFlattening : KeptByFlattening (Diagram.EachBlock Q) where
  linked := hQ.keptByLinking
  moved d id f h hf := h.modifyBlock fun b _ hb => by
    rw [hf b]
    exact hQ.moved id b _ _ _ _ hb
  erased d id h x b hb := by
    rw [block?_erased] at hb
    split at hb
    · cases hb
    · exact h x b hb

end Block.Enduring

namespace Block.Lasting

open Edit

variable {Q : Block α → Prop} (hQ : Block.Lasting Q)
include hQ

theorem insert_keeps (parent : BlockId) (name : String) (operator : Operator α)
    (inputs outputs : List String)
    (hfit : operator.isComposite = true ∨
      inputs = operator.inputNames ∧ outputs = operator.outputNames) :
    Keeps (Diagram.AllBlocks Q) (insert parent name operator inputs outputs) := by
  refine .of_ok (fun d => insert_atomic d parent name operator inputs outputs) fun e _ e' h hok => ?_
  obtain ⟨_, _, _, _, _, _, hdiagram⟩ := insert_ok hok
  rw [hdiagram]
  refine h.adopted hQ fun b hb => ?_
  rw [List.mem_singleton.mp hb]
  exact hQ.made _ _ _ _ _ hfit

theorem keptByBuilding : KeptByBuilding (Diagram.AllBlocks Q) where
  addBlock parent name operator := hQ.insert_keeps parent name operator _ _ (.inr ⟨rfl, rfl⟩)
  addComposite parent name type inputs outputs :=
    hQ.insert_keeps parent name (.composite type) inputs outputs (.inl rfl)
  connectPorts := hQ.enduring.keptByLinking.connectPorts
  disconnectPorts := hQ.enduring.keptByLinking.disconnectPorts

end Block.Lasting

/-! ### Properties of the ports -/

/-- Two blocks have the same ports by name, and operators with the same ports. -/
structure Block.SameFace (b b' : Block α) : Prop where
  kind : b'.isComposite = b.isComposite
  inputNames : b'.operator.inputNames = b.operator.inputNames
  outputNames : b'.operator.outputNames = b.operator.outputNames
  ports : ∀ side, (b'.ports side).map Port.name = (b.ports side).map Port.name

theorem Block.SameFace.length {b b' : Block α} (h : b.SameFace b') (side : Side) :
    (b'.ports side).length = (b.ports side).length := by
  have hlength := congrArg List.length (h.ports side)
  rwa [List.length_map, List.length_map] at hlength

/-- A property that a new block has, and that the names of ports decide. -/
structure Block.Formal (Q : Block α → Prop) : Prop where
  made : ∀ name operator parent inputs outputs,
    (operator.isComposite = true ∨ inputs = operator.inputNames ∧ outputs = operator.outputNames) →
      Q (.make name operator parent inputs outputs)
  same : ∀ b b', SameFace b b' → Q b → Q b'

theorem Block.map_name_make (name : String) (operator : Operator α) (parent : Option BlockId)
    (inputs outputs : List String) :
    (make name operator parent inputs outputs).inputs.map Port.name = inputs ∧
      (make name operator parent inputs outputs).outputs.map Port.name = outputs := by
  have hname : Port.name ∘ Port.ofName (α := α) = id := rfl
  simp [make, hname]

theorem Block.fitted_formal : Block.Formal (Block.Fitted (α := α)) where
  made name operator parent inputs outputs hfit hprimitive := by
    rcases hfit with hcomposite | ⟨_, rfl⟩
    · exact absurd hcomposite (by rw [show operator.isComposite = false from hprimitive]; simp)
    · rw [Block.make, List.length_map]
  same b b' hsame h hprimitive := by
    rw [hsame.outputNames, ← h (hsame.kind.symm.trans hprimitive)]
    exact hsame.length .output

theorem Block.ported_formal : Block.Formal (Block.Ported (α := α)) where
  made name operator parent inputs outputs hfit hprimitive := by
    rcases hfit with hcomposite | ⟨rfl, _⟩
    · exact absurd hcomposite (by rw [show operator.isComposite = false from hprimitive]; simp)
    · exact (Block.map_name_make _ _ _ _ _).1
  same b b' hsame h hprimitive := by
    rw [hsame.inputNames, ← h (hsame.kind.symm.trans hprimitive)]
    exact hsame.ports .input

theorem Block.sameFace_of_bare {b b' : Block α} (h : b.bare = b'.bare) : SameFace b b' := by
  have hoperator : b.bare.operator = b'.bare.operator := by rw [h]
  have hoperator : b'.operator = b.operator := hoperator.symm
  refine ⟨by rw [isComposite, isComposite, hoperator], by rw [hoperator], by rw [hoperator],
    fun side => ?_⟩
  have hports : (b.bare.ports side).map Port.name = (b'.bare.ports side).map Port.name := by rw [h]
  have hname : Port.name ∘ Port.bare = Port.name (α := α) := rfl
  simpa only [ports_bare, List.map_map, hname] using hports.symm

theorem Block.sameFace_copyInside (b : Block α) (rename : BlockId → Option BlockId) :
    SameFace b (b.copyInside rename) := by
  refine ⟨rfl, rfl, rfl, fun side => ?_⟩
  cases side <;> exact List.map_map

theorem Block.sameFace_copyTop (b : Block α) (rename : BlockId → Option BlockId)
    (parent : BlockId) (name : String) : SameFace b (b.copyTop rename parent name) := by
  refine ⟨rfl, rfl, rfl, fun side => ?_⟩
  cases side <;> exact List.map_map

namespace Block.Formal

variable {Q : Block α → Prop} (hQ : Block.Formal Q)
include hQ

theorem enduring : Block.Enduring fun _ : BlockId => Q where
  moved _ b name parent children childIndex := by
    refine hQ.same b _ ⟨rfl, rfl, rfl, fun side => ?_⟩
    cases side <;> rfl
  linked _ b side index f hf := by
    have hoperator : (b.mapPorts side fun ports => ports.modify index f).operator = b.operator := by
      cases side <;> rfl
    refine hQ.same b _ ⟨by rw [isComposite, hoperator]; rfl, by rw [hoperator], by rw [hoperator],
      fun other => ?_⟩
    rw [Diagram.ports_mapPorts]
    split
    · exact Diagram.map_name_modify (fun p => (hf p).1) _ _
    · rfl

theorem lasting : Block.Lasting Q := ⟨hQ.made, hQ.enduring⟩

theorem sameShape {d d' : Diagram α} (h : d.SameShape d') (hd : d.AllBlocks Q) :
    d'.AllBlocks Q := by
  intro id b' hb'
  obtain ⟨b, hb, hbare⟩ := h.block?_bare hb'
  exact hQ.same b b' (sameFace_of_bare hbare) (hd id b hb)

theorem keptByTuning : Edit.KeptByTuning (Diagram.AllBlocks Q) := by
  intro d id f h hf
  refine h.modifyBlock fun b hb => hQ.same b _
    ⟨hf.kind b hb, hf.inputNames b hb, hf.outputNames b hb, fun side => ?_⟩
  rw [hf.rest b]
  cases side <;> rfl

theorem clone_keeps (source parent : BlockId) (name : String) :
    Edit.Keeps (Diagram.AllBlocks Q) (Edit.clone source parent name) := by
  refine .of_ok (fun d => Edit.clone_atomic d source parent name) fun e _ e' h hok => ?_
  obtain ⟨_, _, _, _, _, _, hdiagram⟩ := Edit.clone_ok hok
  rw [hdiagram]
  refine h.adopted hQ.lasting fun copy hcopy => ?_
  obtain ⟨id, _, hid⟩ := List.mem_filterMap.mp hcopy
  obtain ⟨b, hb, rfl⟩ := Option.map_eq_some_iff.mp hid
  split
  · exact hQ.same b _ (sameFace_copyTop b _ _ _) (h id b hb)
  · exact hQ.same b _ (sameFace_copyInside b _) (h id b hb)

/-- A call keeps the property of all blocks, also when it fails. -/
theorem perform_keeps [Scalar α] (call : DiagramCall α) :
    Edit.Keeps (Diagram.AllBlocks Q) call.perform := by
  have hbuilding := hQ.lasting.keptByBuilding
  have htuning := hQ.keptByTuning
  cases call with
  | addBlock parent name operator => exact (hbuilding.addBlock parent name operator).discard
  | addComposite parent name type inputs outputs =>
      exact (hbuilding.addComposite parent name type inputs outputs).discard
  | connectPorts source target => exact hbuilding.connectPorts source target
  | connect parent source target output input =>
      exact hbuilding.connect parent source target output input
  | disconnectPorts source target => exact hbuilding.disconnectPorts source target
  | disconnect parent source target output input =>
      exact hbuilding.disconnect parent source target output input
  | clone source parent name => exact (hQ.clone_keeps source parent name).discard
  | flatten id keep => exact hQ.enduring.keptByFlattening.flatten id keep
  | setConstant path value => exact htuning.setConstant path value
  | setRate id rate => exact htuning.setRate id rate
  | setClockStart start => exact htuning.setClockStart start
  | rewind => exact fun e h => hQ.sameShape e.diagram.sameShape_rewind h
  | clearSignals => exact fun e h => hQ.sameShape e.diagram.sameShape_clearSignals h
  | addIncrement parent name => exact (hbuilding.addIncrement parent name).discard
  | addDerivator parent name => exact (hbuilding.addDerivator parent name).discard
  | addIntegrator parent name => exact (hbuilding.addIntegrator parent name).discard
  | addFixedRateClock parent stem step start =>
      exact (hbuilding.addFixedRateClock parent stem step start).discard

/-- All blocks of a diagram that calls made have the property. -/
theorem built [Scalar α] {d : Diagram α} (h : d.Built) : d.AllBlocks Q := by
  induction h with
  | empty name inputs outputs =>
      rintro ⟨_ | index⟩ b hb
      · cases hb
        exact hQ.made _ _ _ _ _ (.inl rfl)
      · cases hb
  | call call _ _ ih => exact hQ.perform_keeps call _ ih

end Block.Formal

theorem Block.fitted_lasting : Block.Lasting (Block.Fitted (α := α)) := Block.fitted_formal.lasting

theorem Edit.fitted_keptByTuning : KeptByTuning (Diagram.Fitted (α := α)) :=
  Block.fitted_formal.keptByTuning

theorem Diagram.SameShape.fitted {d d' : Diagram α} (h : SameShape d d') (hfitted : d.Fitted) :
    d'.Fitted := Block.fitted_formal.sameShape h hfitted

theorem Diagram.Built.fitted [Scalar α] {d : Diagram α} (h : d.Built) : d.Fitted :=
  Block.fitted_formal.built h

theorem Diagram.SameShape.ported {d d' : Diagram α} (h : SameShape d d') (hported : d.Ported) :
    d'.Ported := Block.ported_formal.sameShape h hported

theorem Diagram.Built.ported [Scalar α] {d : Diagram α} (h : d.Built) : d.Ported :=
  Block.ported_formal.built h

/-! ### Blocks without samples -/

theorem Block.unsampled_enduring : Block.Enduring fun _ : BlockId => Block.Unsampled (α := α) where
  moved _ _ _ _ _ _ h := fun side p hp => h side p (by cases side <;> exact hp)
  linked _ b side index f hf h := by
    intro side' p hp
    rw [Diagram.ports_mapPorts] at hp
    split at hp
    next hside =>
      obtain ⟨i, hi⟩ := List.mem_iff_getElem?.mp hp
      rw [List.getElem?_modify, Option.map_eq_map, Option.map_eq_some_iff] at hi
      obtain ⟨old, hold, rfl⟩ := hi
      have hnone := h side' old (List.mem_of_getElem? hold)
      split
      · rw [(hf _).2, hnone]
      · exact hnone
    next => exact h side' p hp

theorem Block.unsampled_lasting : Block.Lasting (Block.Unsampled (α := α)) where
  made name operator parent inputs outputs _ := by
    intro side p hp
    cases side <;>
    · obtain ⟨_, _, rfl⟩ := List.mem_map.mp hp
      rfl
  enduring := Block.unsampled_enduring

theorem Diagram.Unsampled.history? {d : Diagram α} (h : d.Unsampled) {p : PortId}
    {history : History α} (hp : d.history? p = some history) : history = #[] := by
  obtain ⟨port, hport, rfl⟩ := Option.map_eq_some_iff.mp hp
  obtain ⟨b, hb, hindex⟩ := Diagram.block?_of_port? hport
  exact h p.block b hb p.side port (List.mem_of_getElem? hindex)

theorem Diagram.unsampled_clearSignals (d : Diagram α) : d.clearSignals.Unsampled := by
  intro id b hb side p hp
  rw [Diagram.block?_clearSignals] at hb
  obtain ⟨old, _, rfl⟩ := Option.map_eq_some_iff.mp hb
  rw [Block.ports_bare] at hp
  obtain ⟨_, _, rfl⟩ := List.mem_map.mp hp
  rfl

theorem Edit.unsampled_keptByTuning : KeptByTuning (Diagram.Unsampled (α := α)) := by
  intro d id f h hf
  refine Diagram.AllBlocks.modifyBlock h fun b _ hb side p hp => hb side p ?_
  rw [hf.rest b] at hp
  cases side <;> exact hp

end CausalBlocks
