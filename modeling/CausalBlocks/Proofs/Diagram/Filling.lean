import CausalBlocks.Proofs.Diagram.Blueprint
import CausalBlocks.Proofs.Diagram.Cloning

/-!
# Filling new composites

Adding a block fails only where the composite cannot take it, and linking two names fails only if
they do not lead to two ports that face each other. Whether the links of a blueprint can all be made
is a matter of the blueprint alone. So a composite that is made by a blueprint that can be followed
is made without fail once it is there itself.
-/

namespace CausalBlocks

variable {α : Type}

/-! ### Adding one block and one link -/

/-- A composite takes a block by a name that is free in it. -/
def Diagram.Takes (d : Diagram α) (parent : BlockId) (name : String) : Prop :=
  ∃ b, d.block? parent = some b ∧ b.isComposite = true ∧ name ∉ b.takenNames

namespace Edit

variable {e : Editor α} {parent : BlockId} {name : String}

theorem insert_total (h : e.diagram.Takes parent name) (hname : name ≠ "") (operator : Operator α)
    (inputs outputs : List String) :
    ∃ id e', insert parent name operator inputs outputs e = .ok id e' := by
  obtain ⟨b, hb, hcomposite, hfree⟩ := h
  have hchild : childName parent name e = .ok name e := by
    rw [childName, if_neg (mt String.isEmpty_iff.mp hname)]
    rfl
  obtain ⟨e', hok, _⟩ := insert_of_childName hb hcomposite hchild hfree
  exact ⟨_, e', hok⟩

/-- A block can be added by a name just where a composite takes it. -/
theorem insert_ok_iff (hname : name ≠ "") {operator : Operator α} {inputs outputs : List String} :
    (∃ id e', insert parent name operator inputs outputs e = .ok id e') ↔
      e.diagram.Takes parent name := by
  constructor
  · rintro ⟨id, e', hok⟩
    obtain ⟨b, name', hb, hcomposite, ⟨_, hgiven⟩, hfree, _⟩ := insert_ok hok
    cases hgiven hname
    exact ⟨b, hb, hcomposite, hfree⟩
  · intro h
    exact insert_total h hname operator inputs outputs

end Edit

namespace Diagram

variable {d : Diagram α} {id child level : BlockId} {b : Block α} {source target p : PortId}
  {inner : Side}

/-- A port at which links in a composite start or end. -/
structure Faces (d : Diagram α) (level : BlockId) (inner : Side) (p : PortId) : Prop where
  live : (d.port? p).isSome
  level : levelAt d.place? inner p = some level

theorem faces_of_block (hb : d.block? p.block = some b)
    (hport : p.index < (b.ports p.side).length)
    (hlevel : (if p.side = inner then if b.isComposite then some p.block else none
      else b.parent) = some level) : d.Faces level inner p where
  live := by
    rw [port?_eq hb, List.getElem?_eq_getElem hport]
    rfl
  level := by
    rw [levelAt, place?_eq hb, Option.bind_some]
    exact hlevel

theorem targetLevel_eq (h : levelAt d.place? .output p = some level) :
    d.targetLevel p = .ok (some level) := by
  obtain ⟨here, hhere, _⟩ := Option.bind_eq_some_iff.mp h
  obtain ⟨b, hb, _⟩ := place?_eq_some hhere
  obtain ⟨level', hlevel⟩ : ∃ level', d.targetLevel p = .ok level' :=
    ⟨_, Except.bind_eq_ok.mpr ⟨b, block_eq hb, rfl⟩⟩
  rw [hlevel, ← targetLevel_ok hlevel, h]

theorem checkLevels_total (hsource : d.Faces level .input source)
    (htarget : d.Faces level .output target) : d.checkLevels source target = .ok () := by
  obtain ⟨p, hp⟩ := Option.isSome_iff_exists.mp hsource.live
  obtain ⟨q, hq⟩ := Option.isSome_iff_exists.mp htarget.live
  rw [checkLevels, port_eq hp, port_eq hq, sourceLevel_eq hsource.level,
    targetLevel_eq htarget.level]
  exact if_pos ⟨rfl, rfl⟩

end Diagram

namespace Edit

variable {e : Editor α} {parent : BlockId} {source target : PortId}

/-- Two ports that face each other in a composite can be linked if no link ends there. -/
theorem connectPorts_total (hsource : e.diagram.Faces parent .input source)
    (htarget : e.diagram.Faces parent .output target) (hfree : e.diagram.incoming target = none) :
    ∃ e', connectPorts source target e = .ok () e' := by
  obtain ⟨q, hq⟩ := Option.isSome_iff_exists.mp htarget.live
  have hlevels := Diagram.checkLevels_total hsource htarget
  have hincoming : ¬q.incoming.isSome := by
    rw [← Diagram.incoming_eq hq, hfree]
    exact Bool.false_ne_true
  rw [connectPorts]
  refine EStateM.bind_total rfl (EStateM.bind_total (EStateM.lift_eq_ok.mpr ⟨hlevels, rfl⟩)
    (EStateM.bind_total (EStateM.lift_eq_ok.mpr ⟨Diagram.port_eq hq, rfl⟩) ?_))
  rw [if_neg hincoming]
  exact link_total hsource.live htarget.live

/-- Two names can be linked that lead to two such ports. -/
theorem connect_total {first last : String} {output input : Option String}
    (hstart : e.diagram.sourceNamed parent first output = .ok source)
    (hstop : e.diagram.targetNamed parent last input = .ok target)
    (hsource : e.diagram.Faces parent .input source)
    (htarget : e.diagram.Faces parent .output target) (hfree : e.diagram.incoming target = none) :
    ∃ e', connect parent first last output input e = .ok () e' :=
  EStateM.bind_total rfl (EStateM.bind_total (EStateM.lift_eq_ok.mpr ⟨hstart, rfl⟩)
    (EStateM.bind_total (EStateM.lift_eq_ok.mpr ⟨hstop, rfl⟩)
      (connectPorts_total hsource htarget hfree)))

end Edit

/-! ### Blueprints that can be followed -/

namespace Blueprint

variable (bp : Blueprint α)

/-- The names in a composite: those of its blocks and of its ports. -/
def names : List String := bp.blocks.map Prod.fst ++ bp.inputs ++ bp.outputs

/-- Whether the inputs of a block are all alike. -/
def isAlike (name : String) : Bool :=
  ((bp.place? name).bind fun place => bp.blocks[place]?).all fun block =>
    !block.2.isOrderSensitive

/-- Whether a link can be made among others: it starts at what is there, and it ends where no other
link does, at an input that it names if they are not all alike. -/
def admits (wires : List Wire) (link : String × String × Option String) : Bool :=
  (bp.source? link.1).isSome &&
    (bp.target? wires link.2.1 link.2.2).any (fun target => (driver? wires target).isNone) &&
      (link.2.2.isSome || bp.outputs.contains link.2.1 || bp.isAlike link.2.1)

/-- Whether links can be made one after the other. -/
def joins (wires : List Wire) : List (String × String × Option String) → Bool
  | [] => true
  | link :: rest => bp.admits wires link && (bp.wire? wires link).all fun more => joins more rest

/-- Whether a composite can be made: its blocks have names of their own, and its links can be made
one after the other. -/
def canFollow (links : List (String × String × Option String)) : Bool :=
  bp.blocks.all (fun block => block.1 ≠ "") && decide bp.names.Nodup && bp.joins [] links

variable {bp} {wires : List Wire} {name : String} {place port : ℕ} {names : List String}

theorem input?_lt {input : Option String} (h : input? wires place names input = some port) :
    port < names.length := by
  cases input with
  | some input => exact (List.findIdx?_eq_some_iff_getElem.mp h).1
  | none =>
      obtain ⟨_, _, hfree⟩ := List.exists_of_findSome?_eq_some h
      obtain ⟨port', hport, hfree⟩ := Option.bind_eq_some_iff.mp hfree
      split at hfree
      next =>
        cases hfree
        exact (List.findIdx?_eq_some_iff_getElem.mp hport).1
      next => cases hfree

end Blueprint

namespace Diagram

/-- A composite that is made by a blueprint, with the links made so far. -/
structure Filling (d : Diagram α) (id : BlockId) (bp : Blueprint α) (wires : List Wire) : Prop
    extends d.Laid id bp wires where
  opened : ∃ b, d.block? id = some b ∧ b.isComposite = true

variable {d : Diagram α} {id child : BlockId} {bp : Blueprint α} {wires : List Wire}
  {name : String} {input : Option String} {spot : Spot} {op : Operator α} {b : Block α}

namespace Laid

/-- A name that the blueprint does not use is free. -/
theorem notMem_takenNames (h : d.Laid id bp wires) (hb : d.block? id = some b)
    (hfree : name ∉ bp.names) : name ∉ b.takenNames := by
  obtain ⟨_, hb', hinputs, houtputs, hchild⟩ := h.composite
  cases hb.symm.trans hb'
  rw [Blueprint.names, List.append_assoc, List.mem_append, not_or] at hfree
  obtain ⟨hblocks, hports⟩ := hfree
  have hplace : bp.place? name = none := by
    refine List.findIdx?_eq_none_iff.mpr fun block hblock => beq_eq_false_iff_ne.mpr ?_
    rintro rfl
    exact hblocks (List.mem_map_of_mem hblock)
  have hnone : b.childIndex.lookup name = none := by
    rw [← Block.child?, hchild, hplace]
    rfl
  rw [Block.takenNames, List.map_append, hinputs, houtputs, List.mem_append, not_or]
  refine ⟨fun hmem => ?_, hports⟩
  obtain ⟨entry, hentry, rfl⟩ := List.mem_map.mp hmem
  simpa using List.lookup_eq_none_iff.mp hnone entry hentry

end Laid

namespace Filling

/-- An output of a block inside is a source there. -/
theorem faces_output (h : d.Filling id bp wires) {place port : ℕ}
    (hblock : bp.blocks[place]? = some (name, op)) (hport : port < op.outputNames.length) :
    d.Faces id .input ((Spot.inner place port).source id) := by
  obtain ⟨b, hb, hstands⟩ := h.blocks place name op hblock
  refine faces_of_block (p := .output (id.inside place) port) hb ?_ hstands.parent
  rwa [← hstands.outputs, List.length_map] at hport

/-- An input of a block inside is a target there. -/
theorem faces_input (h : d.Filling id bp wires) {place port : ℕ}
    (hblock : bp.blocks[place]? = some (name, op)) (hport : port < op.inputNames.length) :
    d.Faces id .output ((Spot.inner place port).target id) := by
  obtain ⟨b, hb, hstands⟩ := h.blocks place name op hblock
  refine faces_of_block (p := .input (id.inside place) port) hb ?_ hstands.parent
  rwa [← hstands.inputs, List.length_map] at hport

/-- A port of the composite faces its inside, an input as a source and an output as a target. -/
theorem faces_own (h : d.Filling id bp wires) :
    (∀ port < bp.inputs.length, d.Faces id .input ((Spot.own port).source id)) ∧
      ∀ port < bp.outputs.length, d.Faces id .output ((Spot.own port).target id) := by
  obtain ⟨b, hb, hinputs, houtputs, _⟩ := h.composite
  obtain ⟨_, hb', hcomposite⟩ := h.opened
  cases hb.symm.trans hb'
  constructor
  · intro port hport
    refine faces_of_block (p := .input id port) hb ?_ (if_pos hcomposite)
    rwa [← hinputs, List.length_map] at hport
  · intro port hport
    refine faces_of_block (p := .output id port) hb ?_ (if_pos hcomposite)
    rwa [← houtputs, List.length_map] at hport

/-- Where a link from a name starts, a link can start. -/
theorem faces_source (h : d.Filling id bp wires) (hspot : bp.source? name = some spot) :
    d.Faces id .input (spot.source id) := by
  obtain ⟨port, hown, rfl⟩ | ⟨_, place, block, port, _, hblock, hport, rfl⟩ :=
    Blueprint.source?_cases hspot
  · exact h.faces_own.1 port (List.findIdx?_eq_some_iff_getElem.mp hown).1
  · exact h.faces_output hblock (List.findIdx?_eq_some_iff_getElem.mp hport).1

/-- A link to a block inside ends at the input that the blueprint says, if it has to say none. -/
theorem inputNamed_eq (h : d.Filling id bp wires) {place port : ℕ}
    (hblock : bp.blocks[place]? = some (name, op))
    (hport : Blueprint.input? wires place op.inputNames input = some port)
    (halike : (input.isSome || !op.isOrderSensitive) = true) :
    d.inputNamed (id.inside place) input = .ok (.input (id.inside place) port) := by
  obtain ⟨b, hb, hstands⟩ := h.blocks place name op hblock
  refine Except.bind_eq_ok.mpr ⟨b, block_eq hb, ?_⟩
  cases input with
  | some input =>
      have hindex : op.inputNames.findIdx? (· == input) = some port := hport
      dsimp only
      rw [Block.inputIndex?_eq, hstands.inputs, hindex]
      rfl
  | none =>
      have hsensitive : op.isOrderSensitive = false := by simpa using halike
      have hfree : b.freeInput? = some port := by rwa [h.freeInput? hb hstands]
      dsimp only
      rw [hstands.operator, hsensitive, hfree]
      rfl

/-- A link to a name ends where the blueprint says, and can end there. -/
theorem targetNamed_eq (h : d.Filling id bp wires) (hspot : bp.target? wires name input = some spot)
    (halike : (input.isSome || bp.outputs.contains name || bp.isAlike name) = true) :
    d.targetNamed id name input = .ok (spot.target id) ∧ d.Faces id .output (spot.target id) := by
  obtain ⟨b, hb, _, houtputs, _⟩ := h.composite
  obtain ⟨port, hown, rfl⟩ | ⟨hown, place, block, port, hplace, hblock, hport, rfl⟩ :=
    Blueprint.target?_cases hspot
  · refine ⟨Except.bind_eq_ok.mpr ⟨b, block_eq hb, ?_⟩,
      h.faces_own.2 port (List.findIdx?_eq_some_iff_getElem.mp hown).1⟩
    rw [Block.outputIndex?_eq, houtputs, hown]
    rfl
  · have hother : bp.outputs.contains name = false := by
      simpa using fun hmem => List.findIdx?_eq_none_iff.mp hown name hmem
    rw [hother, Bool.or_false, Blueprint.isAlike, hplace, Option.bind_some, hblock] at halike
    refine ⟨Except.bind_eq_ok.mpr ⟨b, block_eq hb, ?_⟩,
      h.faces_input hblock (Blueprint.input?_lt hport)⟩
    rw [Block.outputIndex?_eq, houtputs, hown]
    exact Except.bind_eq_ok.mpr ⟨_, h.childNamed_eq hplace, h.inputNamed_eq hblock hport halike⟩

/-- One more block can be added under a name of its own. -/
theorem addBlock_total {e : Editor α} (h : e.diagram.Filling id bp []) (hname : name ≠ "")
    (hfree : name ∉ bp.names) (op : Operator α) : ∃ child e',
      Edit.addBlock id name op e = .ok child e' ∧
        e'.diagram.Filling id { bp with blocks := bp.blocks ++ [(name, op)] } [] := by
  obtain ⟨b, hb, hcomposite⟩ := h.opened
  have htakes : e.diagram.Takes id name := ⟨b, hb, hcomposite, h.notMem_takenNames hb hfree⟩
  obtain ⟨child, e', hok⟩ := Edit.insert_total htakes hname op op.inputNames op.outputNames
  obtain ⟨_, _, _, _, _, _, hdiagram⟩ := Edit.insert_ok hok
  refine ⟨child, e', hok, h.toLaid.addBlock hname hok, ?_⟩
  rw [hdiagram]
  exact ⟨_, block?_adopted_parent hb, hcomposite⟩

/-- One more link can be made where the blueprint admits it. -/
theorem connect_total {e : Editor α} {link : String × String × Option String}
    (h : e.diagram.Filling id bp wires) (hadmits : bp.admits wires link = true) : ∃ wires' e',
      bp.wire? wires link = some wires' ∧
        Edit.connect id link.1 link.2.1 none link.2.2 e = .ok () e' ∧
          e'.diagram.Filling id bp wires' := by
  simp only [Blueprint.admits, Bool.and_eq_true, Option.any_eq_true] at hadmits
  obtain ⟨⟨hsource, target, htarget, hfree⟩, halike⟩ := hadmits
  obtain ⟨source, hsource⟩ := Option.isSome_iff_exists.mp hsource
  obtain ⟨hstop, hfaces⟩ := h.targetNamed_eq htarget halike
  have hundriven : e.diagram.incoming (target.target id) = none := by
    rw [h.wires, Option.isNone_iff_eq_none.mp hfree]
    rfl
  have hwire : bp.wire? wires link = some (wires ++ [(source, target)]) := by
    rw [Blueprint.wire?, hsource, htarget]
    rfl
  obtain ⟨e', hok⟩ := Edit.connect_total (h.sourceNamed_eq hsource) hstop
    (h.faces_source hsource) hfaces hundriven
  obtain ⟨_, _, _, _, hports⟩ := Edit.connect_ok hok
  obtain ⟨_, _, _, _, hdiagram⟩ := Edit.connectPorts_ok hports
  refine ⟨_, e', hwire, hok, h.toLaid.connect hwire hok, ?_⟩
  obtain ⟨b, hb, hcomposite⟩ := h.opened
  obtain ⟨b', hb', hrewired⟩ := exists_rewired_linked hb
  rw [hdiagram]
  exact ⟨b', hb', by rw [hrewired.rest]; exact hcomposite⟩

end Filling

end Diagram

namespace Edit

variable {e e' : Editor α} {id parent : BlockId} {name type : String} {bp : Blueprint α}
  {links : List (String × String × Option String)} {wires : List Wire}

/-- A composite before anything is put in it takes blocks. -/
theorem addComposite_filling {inputs outputs : List String}
    (hok : addComposite parent name type inputs outputs e = .ok id e') :
    e'.diagram.Filling id ⟨inputs, outputs, []⟩ [] where
  toLaid := addComposite_laid hok
  opened := by
    obtain ⟨_, _, hparent, _, _, _, hdiagram⟩ := insert_ok hok
    cases insert_numbered parent name _ inputs outputs e id e' hok
    rw [hdiagram]
    exact ⟨_, Diagram.block?_adopted_new (by rw [hparent]; rfl), rfl⟩

theorem addAll_total {inputs outputs : List String} {blocks : List (String × Operator α)}
    (h : e.diagram.Filling id ⟨inputs, outputs, []⟩ []) (hnames : ∀ block ∈ blocks, block.1 ≠ "")
    (hnodup : (⟨inputs, outputs, blocks⟩ : Blueprint α).names.Nodup) :
    ∃ e', addAll id blocks e = .ok () e' ∧ e'.diagram.Filling id ⟨inputs, outputs, blocks⟩ [] := by
  -- the blocks made so far, and those still to be made
  let P (rest : List (String × Operator α)) (e : Editor α) : Prop :=
    ∃ made, made ++ rest = blocks ∧ e.diagram.Filling id ⟨inputs, outputs, made⟩ []
  have hend : ∃ e', addAll id blocks e = .ok () e' ∧ P [] e' := by
    refine EStateM.forM_total (P := P) ?_ ⟨[], rfl, h⟩
    rintro ⟨name, op⟩ rest e ⟨made, rfl, h⟩
    have hname : name ≠ "" := hnames (name, op) (by simp)
    have hfree : name ∉ (⟨inputs, outputs, made⟩ : Blueprint α).names := by
      rw [Blueprint.names, List.map_append, List.map_cons, List.append_assoc, List.append_assoc,
        List.cons_append, List.nodup_middle, List.nodup_cons] at hnodup
      intro hmem
      apply hnodup.1
      simp only [Blueprint.names, List.append_assoc, List.mem_append] at hmem ⊢
      tauto
    obtain ⟨child, e', hok, hfilling⟩ := h.addBlock_total hname hfree op
    exact ⟨e', EStateM.discard_eq_ok.mpr ⟨child, hok⟩, made ++ [(name, op)],
      by rw [List.append_assoc]; rfl, hfilling⟩
  obtain ⟨e', hok, made, hmade, hfilling⟩ := hend
  rw [List.append_nil] at hmade
  exact ⟨e', hok, hmade ▸ hfilling⟩

theorem connectAll_total (h : e.diagram.Filling id bp wires)
    (hjoins : bp.joins wires links = true) : ∃ e', connectAll id links e = .ok () e' := by
  -- the links still to be made can be made after those made so far
  let P (rest : List (String × String × Option String)) (e : Editor α) : Prop :=
    ∃ made, bp.joins made rest = true ∧ e.diagram.Filling id bp made
  have hend : ∃ e', connectAll id links e = .ok () e' ∧ P [] e' := by
    refine EStateM.forM_total (P := P) ?_ ⟨wires, hjoins, h⟩
    rintro link rest e ⟨made, hjoins, h⟩
    rw [Blueprint.joins, Bool.and_eq_true] at hjoins
    obtain ⟨more, e', hwire, hok, hfilling⟩ := h.connect_total hjoins.1
    rw [hwire] at hjoins
    exact ⟨e', hok, more, hjoins.2, hfilling⟩
  obtain ⟨e', hok, _⟩ := hend
  exact ⟨e', hok⟩

/-- A composite that is made by a blueprint that can be followed is complete or not there at all. -/
theorem fill_atomic {inputs outputs : List String} {blocks : List (String × Operator α)}
    (h : (⟨inputs, outputs, blocks⟩ : Blueprint α).canFollow links = true) (d : Diagram α) :
    Atomic d (do
      let id ← addComposite parent name type inputs outputs
      addAll id blocks
      connectAll id links
      return id) := by
  simp only [Blueprint.canFollow, Bool.and_eq_true, List.all_eq_true, decide_eq_true_eq] at h
  obtain ⟨⟨hnames, hnodup⟩, hjoins⟩ := h
  intro e failure e' hd hfailed
  cases hcomposite : addComposite parent name type inputs outputs e with
  | error failure' e₁ =>
      rw [EStateM.bind_of_error hcomposite] at hfailed
      cases hfailed
      exact insert_atomic d parent name _ inputs outputs e failure e' hd hcomposite
  | ok id e₁ =>
      obtain ⟨e₂, hblocks, hfilling⟩ :=
        addAll_total (addComposite_filling hcomposite) hnames hnodup
      obtain ⟨e₃, hlinks⟩ := connectAll_total hfilling hjoins
      rw [EStateM.bind_of_ok hcomposite, EStateM.bind_of_ok hblocks,
        EStateM.bind_of_ok hlinks] at hfailed
      cases hfailed

theorem addIncrement_atomic [Scalar α] (d : Diagram α) (parent : BlockId) (name : String) :
    Atomic d (addIncrement parent name) :=
  fill_atomic rfl d

theorem addDerivator_atomic [Scalar α] (d : Diagram α) (parent : BlockId) (name : String) :
    Atomic d (addDerivator parent name) :=
  fill_atomic rfl d

theorem addIntegrator_atomic [Scalar α] (d : Diagram α) (parent : BlockId) (name : String) :
    Atomic d (addIntegrator parent name) :=
  fill_atomic rfl d

end Edit

end CausalBlocks
