import CausalBlocks.Proofs.Diagram.Inlining

/-!
# Flattened diagrams

Flattening takes apart every composite that is not of a type to keep and not inside one.
What is left does the same work under the same paths, and gets its signals from the
same ports.
-/

namespace CausalBlocks

variable {α : Type}

/-- Two blocks do the same: their operators, rates and ports by name agree. -/
structure Block.SameWork (b b' : Block α) : Prop where
  operator : b'.operator = b.operator
  rate : b'.rate = b.rate
  ports : ∀ side, (b'.ports side).map Port.name = (b.ports side).map Port.name

namespace Diagram

variable {start d d' : Diagram α} {keep : List String} {x y up : BlockId}

/-- Every block does the work of an older one at its place. -/
def Descended (start d : Diagram α) : Prop :=
  EachBlock (fun x b' => ∃ b, start.block? x = some b ∧ b.SameWork b') d

/-- A composite below the root whose type is to be kept. -/
def Listed (d : Diagram α) (keep : List String) (x : BlockId) : Prop :=
  x ≠ d.root ∧ ∃ b, d.block? x = some b ∧ b.isComposite = true ∧ b.operator.typeName ∈ keep

/-- A block that is, or lies inside, a composite whose type is to be kept. -/
def Sheltered (d : Diagram α) (keep : List String) (x : BlockId) : Prop :=
  ∃ y, Relation.ReflTransGen d.ParentOf x y ∧ d.Listed keep y

end Diagram

/-- Moving and linking do not change what blocks do. -/
theorem Block.sameWork_enduring (start : Diagram α) :
    Block.Enduring fun x b' => ∃ b, start.block? x = some b ∧ b.SameWork b' where
  moved x b' _ _ _ _ h := by
    obtain ⟨b, hb, hwork⟩ := h
    refine ⟨b, hb, hwork.operator, hwork.rate, fun side => ?_⟩
    rw [← hwork.ports side]
    cases side <;> rfl
  linked x b' side index f hf h := by
    obtain ⟨b, hb, hwork⟩ := h
    refine ⟨b, hb, ?_, ?_, fun other => ?_⟩
    · rw [← hwork.operator]
      cases side <;> rfl
    · rw [← hwork.rate]
      cases side <;> rfl
    · rw [← hwork.ports other, Diagram.ports_mapPorts]
      split
      · exact Diagram.map_name_modify (fun p => (hf p).1) _ _
      · rfl

namespace Diagram

variable {start d d' : Diagram α} {keep : List String} {x y up inner outer : BlockId}

/-! ### What descends from a diagram -/

theorem block?_isSome_iff : (d.block? x).isSome ↔ (d.place? x).isSome := by
  rw [place?, Option.isSome_map]

theorem compositeAt_eq_isComposite : compositeAt d.place? x = d.isComposite x := by
  rw [compositeAt, isComposite, place?]
  cases d.block? x <;> rfl

namespace Descended

variable (h : start.Descended d)
include h

theorem live (hx : (d.block? x).isSome) : (start.block? x).isSome := by
  obtain ⟨b', hb'⟩ := Option.isSome_iff_exists.mp hx
  obtain ⟨b, hb, _⟩ := h x b' hb'
  rw [hb]
  rfl

theorem isComposite_eq (hx : (d.block? x).isSome) : d.isComposite x = start.isComposite x := by
  obtain ⟨b', hb'⟩ := Option.isSome_iff_exists.mp hx
  obtain ⟨b, hb, hwork⟩ := h x b' hb'
  rw [isComposite, isComposite, hb, hb']
  exact congrArg Operator.isComposite hwork.operator

theorem listed_iff (hx : (d.block? x).isSome) : d.Listed keep x ↔ start.Listed keep x := by
  obtain ⟨b', hb'⟩ := Option.isSome_iff_exists.mp hx
  obtain ⟨b, hb, hwork⟩ := h x b' hb'
  simp only [Listed, hb, hb', Option.some.injEq, exists_eq_left', Block.isComposite, hwork.operator]
  rfl

theorem port?_isSome (hx : (d.block? x).isSome) {p : PortId} (hp : p.block = x) :
    (d.port? p).isSome = (start.port? p).isSome := by
  obtain ⟨b', hb'⟩ := Option.isSome_iff_exists.mp hx
  obtain ⟨b, hb, hwork⟩ := h x b' hb'
  have hnames := congrArg (fun names => names[p.index]?.isSome) (hwork.ports p.side)
  rw [List.getElem?_map, List.getElem?_map, Option.isSome_map, Option.isSome_map] at hnames
  rw [port?_eq (hp ▸ hb'), port?_eq (hp ▸ hb), hnames]

theorem portNames (hx : (d.place? x).isSome) :
    portNamesAt d.place? x = portNamesAt start.place? x := by
  obtain ⟨b', hb'⟩ := Option.isSome_iff_exists.mp (block?_isSome_iff.mpr hx)
  obtain ⟨b, hb, hwork⟩ := h x b' hb'
  have hin := hwork.ports .input
  have hout := hwork.ports .output
  rw [portNamesAt, portNamesAt, place?_eq hb, place?_eq hb', Option.map_some, Option.map_some,
    Option.getD_some, Option.getD_some, Block.place, Block.place]
  dsimp only [Block.ports] at hin hout ⊢
  rw [List.map_append, List.map_append, hin, hout]

end Descended

theorem sheltered_iff :
    d.Sheltered keep x ↔ d.Listed keep x ∨ ∃ up, d.ParentOf x up ∧ d.Sheltered keep up := by
  constructor
  · rintro ⟨y, hxy, hy⟩
    rcases Relation.ReflTransGen.cases_head hxy with rfl | ⟨up, hup, hrest⟩
    · exact .inl hy
    · exact .inr ⟨up, hup, y, hrest, hy⟩
  · rintro (hx | ⟨up, hup, y, hrest, hy⟩)
    · exact ⟨x, .refl, hx⟩
    · exact ⟨y, .head hup hrest, hy⟩

/-! ### Paths of what is left -/

/-- No name of a block or port holds a point. -/
def PlainNames (d : Diagram α) : Prop :=
  AllBlocks (fun b => Plain b.name ∧ ∀ p ∈ b.inputs ++ b.outputs, Plain p.name) d

theorem PlainNames.block (h : d.PlainNames) {name : String} (hname : nameAt d.place? x = some name) :
    Plain name := by
  obtain ⟨here, hhere, rfl⟩ := Option.map_eq_some_iff.mp hname
  obtain ⟨b, hb, rfl⟩ := place?_eq_some hhere
  exact (h x b hb).1

theorem PlainNames.port (h : d.PlainNames) {name : String}
    (hname : name ∈ portNamesAt d.place? x) : Plain name := by
  rw [portNamesAt] at hname
  cases hhere : d.place? x with
  | none => simp [hhere] at hname
  | some here =>
      obtain ⟨b, hb, rfl⟩ := place?_eq_some hhere
      rw [hhere, Option.map_some, Option.getD_some] at hname
      obtain ⟨p, hp, rfl⟩ := List.mem_map.mp hname
      exact (h x b hb).2 p hp

/-- Blocks that are left do the same work and, below the root, have the same paths. -/
structure Traced (start d : Diagram α) : Prop where
  descended : start.Descended d
  path : ∀ x, x ≠ ⟨0⟩ → (d.place? x).isSome → d.pathOf x = start.pathOf x

namespace Traced

theorem step (h : Traced start d) (hdescended : start.Descended d') (hrooted : d'.Rooted)
    (hlive : ∀ x, (d'.place? x).isSome → (d.place? x).isSome)
    (hstep : ∀ x up name, parentAt d'.place? x = some up → nameAt d'.place? x = some name →
      d.pathOf x = d.childPath up name) : Traced start d' where
  descended := hdescended
  path x hroot hx := by
    rw [hrooted.pathOf_congr hstep hx hroot, h.path x hroot (hlive x hx)]

/-- Paths depend on places only. -/
theorem same (h : Traced start d) (hrooted : d.Rooted) (hdescended : start.Descended d')
    (hplace : d'.place? = d.place?) : Traced start d' := by
  refine h.step hdescended ⟨by rw [hplace]; exact hrooted.top, by rw [hplace]; exact hrooted.tree⟩
    (fun x hx => ?_) fun x up name hup hname => ?_
  · rwa [hplace] at hx
  · rw [hplace] at hup hname
    exact hrooted.pathOf_child hup hname

/-- The name under which a block moves up is free there: the path would be taken. -/
theorem free_name (h : Traced start d) (hstart : start.Rooted) (hplain : start.PlainNames)
    (hrooted : d.Rooted) {child : BlockId} {above name : String} {composite : Block α}
    (hup : parentAt d.place? inner = some outer) (habove : nameAt d.place? inner = some above)
    (hchild : parentAt d.place? child = some inner) (hname : nameAt d.place? child = some name)
    (hcomposite : d.block? outer = some composite) :
    above ++ "." ++ name ∉ composite.takenNames := by
  have hplace := place?_eq hcomposite
  have hlive : ∀ {x}, (d.place? x).isSome → (start.place? x).isSome := fun hx =>
    block?_isSome_iff.mp (h.descended.live (block?_isSome_iff.mpr hx))
  rw [Block.takenNames_eq, List.mem_append, not_or]
  refine ⟨fun hmem => ?_, fun hmem => ?_⟩
  · obtain ⟨⟨taken, y⟩, hentry, htaken⟩ := List.mem_map.mp hmem
    have hindex : (above ++ "." ++ name, y) ∈ indexAt d.place? outer := by
      rw [indexAt, hplace, ← htaken]
      exact hentry
    obtain ⟨hlisted, hyname⟩ := (hrooted.tree.index outer _ y).mp hindex
    obtain ⟨hyroot, hyup, _⟩ := hrooted.tree.child outer y hlisted
    have hy := isSome_of_parentAt hyup
    have hx := isSome_of_parentAt hchild
    have hroot := (hrooted.up_lt hchild).1
    -- both would have the path that the child has had all along
    have hpath : d.pathOf y = d.pathOf child := by
      rw [hrooted.pathOf_child hyup hyname, hrooted.childPath_child hup habove,
        hrooted.pathOf_child hchild hname]
    rw [h.path y hyroot hy, h.path child hroot hx] at hpath
    obtain rfl := hstart.pathOf_injective (fun _ _ => hplain.block) (hlive hy) (hlive hx) hyroot
      hroot hpath
    rw [hyup, Option.some.injEq] at hchild
    exact absurd (hrooted.up_lt hup).2 (by rw [hchild]; exact Nat.lt_irrefl _)
  · refine not_plain_append above name (hplain.port (x := outer) ?_)
    rw [← h.descended.portNames (by rw [hplace]; rfl), portNamesAt, hplace]
    exact hmem

end Traced

end Diagram

theorem Emptying.rooted {place : BlockId → Option Place} {outer inner : BlockId}
    {rest : List BlockId} {d : Diagram α} (h : Emptying place outer inner rest d.place?) : d.Rooted :=
  ⟨h.top.2, h.tree⟩

theorem Dissolving.rooted {place : BlockId → Option Place} {outer inner : BlockId}
    {rest : List BlockId} {d : Diagram α} (h : Dissolving place outer inner rest d) : d.Rooted :=
  ⟨h.top.2, h.tree⟩

theorem Diagram.WellFormed.rooted {d : Diagram α} (h : d.WellFormed) : d.Rooted :=
  ⟨h.top.2, h.tree⟩

namespace Edit

variable {e e' : Editor α} {start : Diagram α} {place : BlockId → Option Place} {keep : List String}
  {inner outer child : BlockId} {rest : List BlockId} {above : String}

/-- The turn of one child while its composite is taken apart. -/
def moveUp (outer : BlockId) (above : String) (child : BlockId) : Edit α Unit := do
  let moved ← (← diagram).block child
  reparent child outer (above ++ "." ++ moved.name)

/-- The turn of one child while a composite is flattened. -/
def visit (keep : List String) (depth : Nat) (id child : BlockId) : Edit α Unit := do
  let inner ← (← diagram).block child
  if inner.isComposite ∧ inner.operator.typeName ∉ keep then
    flattenTo keep depth child
    dissolve id child

/-- A composite is taken apart from its ports to its children, before it goes itself. -/
theorem dissolve_apply {b : Block α} (hb : e.diagram.block? inner = some b) :
    dissolve outer inner e =
      (((List.range b.inputs.length).map (PortId.input inner) ++
          (List.range b.outputs.length).map (PortId.output inner)).forM bypass >>= fun _ =>
        b.children.forM (moveUp outer b.name) >>= fun _ => remove inner) e := by
  rw [dissolve, block_bind hb]
  rfl

theorem flattenTo_apply {id : BlockId} {depth : Nat} {b : Block α}
    (hb : e.diagram.block? id = some b) (hcomposite : b.isComposite = true) :
    flattenTo keep (depth + 1) id e = b.children.forM (visit keep depth id) e := by
  rw [flattenTo, block_bind hb, if_pos hcomposite]
  rfl

/-- A child can move up, and keeps its path. -/
theorem moveUp_emptying (h : Emptying place outer inner (child :: rest) e.diagram.place?)
    (htraced : start.Traced e.diagram) (hstart : start.Rooted) (hplain : start.PlainNames)
    (habove : nameAt e.diagram.place? inner = some above) :
    ∃ e', moveUp outer above child e = .ok () e' ∧
      Emptying place outer inner rest e'.diagram.place? ∧ start.Traced e'.diagram ∧
        ∀ x, x ≠ child → nameAt e'.diagram.place? x = nameAt e.diagram.place? x := by
  have hrooted := h.rooted
  have hmem : child ∈ childrenAt e.diagram.place? inner := by
    rw [h.children]
    exact List.mem_cons_self
  obtain ⟨_, hchild, hinner, _⟩ := h.tree.child inner child hmem
  obtain ⟨_, hup, houter, _⟩ := h.tree.child outer inner h.listed
  obtain ⟨here, hhere, hparent, hname⟩ := exists_block_of_parentAt hchild
  obtain ⟨composite, hcomposite⟩ := Option.isSome_iff_exists.mp
    (Diagram.block?_isSome_iff.mpr (isSome_of_compositeAt houter))
  have hfree := htraced.free_name hstart hplain hrooted hup habove hchild hname hcomposite
  obtain ⟨e', hmove⟩ := reparent_total hhere hparent
    (Diagram.block?_isSome_iff.mpr (isSome_of_compositeAt hinner)) hcomposite hfree
  obtain ⟨_, hindex, hports, hplace⟩ := reparent_ok hmove hhere hparent
  have hdone := h.moveUp hname (by simp) hports hindex
  rw [← hplace] at hdone
  have hlive := isSome_of_parentAt hchild
  refine ⟨e', ?_, hdone, ?_, fun x hx => ?_⟩
  · rw [moveUp, block_bind hhere]
    exact hmove
  · have hkept := ((Block.sameWork_enduring start).keptByFlattening.reparent child outer _).ok
      htraced.descended hmove
    refine htraced.step hkept hdone.rooted (fun x hx => ?_) fun x up name hup' hname' => ?_
    · rw [hplace, relocated, changed_isSome, changed_isSome, changed_isSome] at hx
      exact hx
    · rw [hplace, parentAt_relocated hlive] at hup'
      rw [hplace, nameAt_relocated hlive] at hname'
      split at hup'
      next hx =>
        rw [if_pos hx] at hname'
        cases hup'
        cases hname'
        rw [hx, hrooted.pathOf_child hchild hname, hrooted.childPath_child hup habove]
      next hx =>
        rw [if_neg hx] at hname'
        exact hrooted.pathOf_child hup' hname'
  · rw [hplace, nameAt_relocated hlive, if_neg hx]

/-- The links move along with the ports of a child. -/
theorem moveUp_total (h : Dissolving place outer inner (child :: rest) e.diagram)
    (htraced : start.Traced e.diagram) (hstart : start.Rooted) (hplain : start.PlainNames)
    (habove : nameAt e.diagram.place? inner = some above) :
    ∃ e', moveUp outer above child e = .ok () e' ∧
      Dissolving place outer inner rest e'.diagram ∧ start.Traced e'.diagram ∧
        nameAt e'.diagram.place? inner = some above ∧
          e'.diagram.incoming = e.diagram.incoming := by
  have hmem : child ∈ childrenAt e.diagram.place? inner := by
    rw [h.children]
    exact List.mem_cons_self
  obtain ⟨_, hchild, _, hlt⟩ := h.tree.child inner child hmem
  have hne : inner ≠ child := by
    rintro rfl
    omega
  obtain ⟨e', hok, _, htraced', hnames⟩ := moveUp_emptying h.emptying htraced hstart hplain habove
  obtain ⟨here, hhere, hparent, _⟩ := exists_block_of_parentAt hchild
  have hmove := hok
  rw [moveUp, block_bind hhere] at hmove
  have hport := (reparent_ok hmove hhere hparent).1
  exact ⟨e', hok, reparent_dissolving h (by simp) hmove, htraced', (hnames inner hne).trans habove,
    Diagram.incoming_congr hport⟩

/-- The ports of a block exist. -/
theorem live_of_mem_ports {d : Diagram α} {b : Block α} (hblock : d.block? inner = some b)
    {port : PortId} (hport : port ∈ (List.range b.inputs.length).map (PortId.input inner) ++
      (List.range b.outputs.length).map (PortId.output inner)) : (d.port? port).isSome := by
  have hlive : ∀ side index, index < (b.ports side).length →
      (d.port? ⟨inner, side, index⟩).isSome := by
    intro side index hindex
    rw [Diagram.port?_eq (q := ⟨inner, side, index⟩) hblock, List.getElem?_eq_getElem hindex]
    rfl
  rcases List.mem_append.mp hport with hport | hport
  · obtain ⟨index, hindex, rfl⟩ := List.mem_map.mp hport
    exact hlive .input index (List.mem_range.mp hindex)
  · obtain ⟨index, hindex, rfl⟩ := List.mem_map.mp hport
    exact hlive .output index (List.mem_range.mp hindex)

/-- The ports of a composite can be taken out of the links. -/
theorem unwire_total (h : e.diagram.WellFormed) (hgrounded : Grounded e.diagram.incoming)
    (htraced : start.Traced e.diagram) (hlisted : inner ∈ childrenAt e.diagram.place? outer)
    {b : Block α} (hb : e.diagram.block? inner = some b) :
    ∃ e', ((List.range b.inputs.length).map (PortId.input inner) ++
        (List.range b.outputs.length).map (PortId.output inner)).forM bypass e = .ok () e' ∧
      Dissolving e.diagram.place? outer inner b.children e'.diagram ∧
        start.Traced e'.diagram ∧ e'.diagram.place? = e.diagram.place? ∧
          e'.diagram.incoming = ((List.range b.inputs.length).map (PortId.input inner) ++
            (List.range b.outputs.length).map (PortId.output inner)).foldl detoured
              e.diagram.incoming := by
  have hup := (h.tree.child outer inner hlisted).2.1
  obtain ⟨e', hbypass, hincoming⟩ := bypassAll_total (h.links.merged inner outer)
    (fun port hport side l hl => merged_level hup (block_of_mem_ports hport) hl)
    (fun port hport => live_of_mem_ports hb hport) hgrounded
  obtain ⟨hplace, hdissolving⟩ := bypassAll_dissolving h hlisted hb hbypass
  have hkept := (Keeps.forM (Block.sameWork_enduring start).keptByFlattening.bypass _).ok
    htraced.descended hbypass
  exact ⟨e', hbypass, hdissolving, htraced.same h.rooted hkept hplace, hplace, hincoming⟩

/-- The composite that is left can be taken out. -/
theorem remove_emptying (h : Emptying place outer inner [] e.diagram.place?)
    (htraced : start.Traced e.diagram) :
    ∃ (e' : Editor α) (name : String), remove inner e = .ok () e' ∧
      nameAt e.diagram.place? inner = some name ∧
        e'.diagram.place? = removed e.diagram.place? inner outer name ∧
          start.Traced e'.diagram := by
  obtain ⟨_, hup, houter, _⟩ := h.tree.child outer inner h.listed
  obtain ⟨here, hhere, hparent, hname⟩ := exists_block_of_parentAt hup
  obtain ⟨e', hremove⟩ := remove_total hhere hparent
    (Diagram.block?_isSome_iff.mpr (isSome_of_compositeAt houter))
  obtain ⟨_, hplace⟩ := remove_ok hremove hhere hparent
  obtain ⟨htop, htree, _⟩ := h.remove hname
  rw [← hplace] at htop htree
  have hkept := ((Block.sameWork_enduring start).keptByFlattening.remove inner).ok htraced.descended hremove
  refine ⟨e', here.name, hremove, hname, hplace, ?_⟩
  refine htraced.step hkept ⟨htop.2, htree⟩ (fun x hx => ?_) fun x up name hup' hname' => ?_
  · rw [hplace, removed] at hx
    split at hx
    next => cases hx
    next => rwa [changed_isSome] at hx
  · rw [hplace, parentAt_removed] at hup'
    rw [hplace, nameAt_removed] at hname'
    split at hup'
    next => cases hup'
    next hx =>
      rw [if_neg hx] at hname'
      exact h.rooted.pathOf_child hup' hname'

/-- Nothing was linked to the composite, so no link goes with it. -/
theorem remove_traced (h : Dissolving place outer inner [] e.diagram)
    (htraced : start.Traced e.diagram) :
    ∃ e', remove inner e = .ok () e' ∧ start.Traced e'.diagram ∧
      e'.diagram.incoming = e.diagram.incoming := by
  obtain ⟨e', _, hremove, _, _, htraced'⟩ := remove_emptying h.emptying htraced
  exact ⟨e', hremove, htraced', (remove_dissolving h hremove).2.2⟩

/-- A composite can be taken apart: its ports are taken out of the links, and nothing else is
lost. -/
theorem dissolve_runs (h : e.diagram.WellFormed) (hgrounded : Grounded e.diagram.incoming)
    (htraced : start.Traced e.diagram) (hstart : start.Rooted) (hplain : start.PlainNames)
    (hlisted : inner ∈ childrenAt e.diagram.place? outer) :
    ∃ (e' : Editor α) (ports : List PortId), dissolve outer inner e = .ok () e' ∧
      start.Traced e'.diagram ∧ e'.diagram.incoming = ports.foldl detoured e.diagram.incoming ∧
        ∀ port ∈ ports, port.block = inner := by
  obtain ⟨b, hb, _, habove⟩ := exists_block_of_parentAt (h.tree.child outer inner hlisted).2.1
  obtain ⟨e₁, hbypass, hdissolving, htraced₁, hplace, hincoming₁⟩ :=
    unwire_total h hgrounded htraced hlisted hb
  have hmoves := EStateM.forM_total
    (P := fun rest e₂ => Dissolving e.diagram.place? outer inner rest e₂.diagram ∧
      start.Traced e₂.diagram ∧ nameAt e₂.diagram.place? inner = some b.name ∧
        e₂.diagram.incoming = e₁.diagram.incoming)
    (f := moveUp outer b.name)
    (fun child rest e₂ hloop => ?_) ⟨hdissolving, htraced₁, by rw [hplace]; exact habove, rfl⟩
  · obtain ⟨e₂, hmove, hdone, htraced₂, _, hincoming₂⟩ := hmoves
    obtain ⟨e', hremove, htraced', hincoming'⟩ := remove_traced hdone htraced₂
    refine ⟨e', _, ?_, htraced', hincoming'.trans (hincoming₂.trans hincoming₁),
      fun port hport => block_of_mem_ports hport⟩
    rw [dissolve_apply hb, EStateM.bind_of_ok hbypass, EStateM.bind_of_ok hmove]
    exact hremove
  · obtain ⟨hdissolving, htraced₂, habove₂, hincoming₂⟩ := hloop
    obtain ⟨e₃, hmove, hdone, htraced₃, habove₃, hincoming₃⟩ :=
      moveUp_total hdissolving htraced₂ hstart hplain habove₂
    exact ⟨e₃, hmove, hdone, htraced₃, habove₃, hincoming₃.trans hincoming₂⟩

end Edit

/-! ### Taking composites apart, one after the other -/

namespace Diagram

variable {start d d' : Diagram α} {keep : List String} {x y up inner outer : BlockId}
  {p last : PortId}

/-- A diagram some of whose composites have been taken apart, none of them to be kept: all
other blocks are still there, under their paths, and signals still come from the ports where
they arise. -/
structure Inlined (start : Diagram α) (keep : List String) (d : Diagram α) : Prop where
  wellFormed : d.WellFormed
  grounded : Grounded d.incoming
  traced : start.Traced d
  sheltered : ∀ x, (d.block? x).isSome → (d.Sheltered keep x ↔ start.Sheltered keep x)
  stays : ∀ x, (start.block? x).isSome →
    (start.isComposite x = false ∨ x = ⟨0⟩ ∨ start.Sheltered keep x) → (d.block? x).isSome
  loose : ∀ p, start.incoming p = none → d.incoming p = none
  ends : ∀ p last, (d.port? p).isSome → start.Source last →
    (Ends d.incoming p last ↔ Ends start.incoming p last)

/-- A block that flattening the composite around it leaves there. -/
def Settled (d : Diagram α) (keep : List String) (x : BlockId) : Prop :=
  d.isComposite x = true → d.Listed keep x

theorem Descended.refl (d : Diagram α) : d.Descended d :=
  fun _ b hb => ⟨b, hb, rfl, rfl, fun _ => rfl⟩

theorem Inlined.refl (h : d.WellFormed) (hgrounded : Grounded d.incoming) : d.Inlined keep d where
  wellFormed := h
  grounded := hgrounded
  traced := ⟨.refl d, fun _ _ _ => rfl⟩
  sheltered _ _ := .rfl
  stays _ hx _ := hx
  loose _ hp := hp
  ends _ _ _ _ := .rfl

theorem WellFormed.live_root (h : d.WellFormed) : (d.block? ⟨0⟩).isSome :=
  block?_isSome_iff.mpr (isSome_of_compositeAt h.top.1)

/-- What is alive, as far as the parents tell. -/
theorem WellFormed.live_iff (h : d.WellFormed) :
    (d.block? x).isSome ↔ x = ⟨0⟩ ∨ ∃ up, parentAt d.place? x = some up := by
  refine ⟨fun hx => ?_, ?_⟩
  · by_cases hroot : x = ⟨0⟩
    · exact .inl hroot
    · exact .inr (h.rooted.exists_up (block?_isSome_iff.mp hx) hroot)
  · rintro (rfl | ⟨up, hup⟩)
    · exact h.live_root
    · exact block?_isSome_iff.mpr (isSome_of_parentAt hup)

/-- The parents after a composite has been taken apart. -/
def Lifted (inner outer : BlockId) (d d' : Diagram α) : Prop :=
  ∀ x, parentAt d'.place? x = if x = inner then none
    else if parentAt d.place? x = some inner then some outer else parentAt d.place? x

/-- Only the composite itself is gone. -/
theorem WellFormed.live_lifted (h : d.WellFormed) (h' : d'.WellFormed) (hroot : inner ≠ ⟨0⟩)
    (hlifted : Lifted inner outer d d') :
    (d'.block? x).isSome ↔ (d.block? x).isSome ∧ x ≠ inner := by
  rw [h.live_iff, h'.live_iff, hlifted x]
  by_cases hx : x = inner
  · simp [hx, hroot]
  · by_cases hup : parentAt d.place? x = some inner <;> simp [hx, hup]

/-- Taking apart a composite that is not sheltered shelters nothing, and exposes nothing. -/
theorem sheltered_lifted (h : d.WellFormed) (h' : d'.WellFormed) (hlifted : Lifted inner outer d d')
    (hdescended : d.Descended d') (hup : parentAt d.place? inner = some outer)
    (hopen : ¬d.Sheltered keep inner) (hx : (d'.block? x).isSome) :
    d'.Sheltered keep x ↔ d.Sheltered keep x := by
  have houter : ¬d.Sheltered keep outer := fun houter =>
    hopen (sheltered_iff.mpr (.inr ⟨outer, WellFormed.parentOf_iff.mpr hup, houter⟩))
  -- from the top down, since shelter comes from above
  have hdown : ∀ n (x : BlockId), x.index < n → (d'.block? x).isSome →
      (d'.Sheltered keep x ↔ d.Sheltered keep x) := by
    intro n
    induction n with
    | zero => exact fun _ hlt => absurd hlt (Nat.not_lt_zero _)
    | succ n ih =>
        intro x hlt hx
        have habove : ∀ up, parentAt d'.place? x = some up →
            (d'.Sheltered keep up ↔ d.Sheltered keep up) := by
          intro up hup
          have hlt' := (h'.rooted.up_lt hup).2
          exact ih up (by omega) (block?_isSome_iff.mpr (h'.rooted.live_up hup))
        have hne := ((h.live_lifted h' (h.rooted.up_lt hup).1 hlifted).mp hx).2
        rw [sheltered_iff, sheltered_iff (d := d), hdescended.listed_iff hx]
        simp only [WellFormed.parentOf_iff] at *
        have hparent := hlifted x
        rw [if_neg hne] at hparent
        by_cases hinner : parentAt d.place? x = some inner
        · rw [if_pos hinner] at hparent
          simp only [hparent, hinner, Option.some.injEq, exists_eq_left', hopen, habove outer hparent,
            houter]
        · rw [if_neg hinner] at hparent
          simp only [hparent]
          refine or_congr_right (exists_congr fun up => and_congr_right fun hup' => ?_)
          exact habove up (hparent.trans hup')
  exact hdown (x.index + 1) x (Nat.lt_succ_self _) hx

theorem Descended.isComposite_of_false (h : start.Descended d) (hx : start.isComposite x = false) :
    d.isComposite x = false := by
  by_cases hlive : (d.block? x).isSome
  · rw [h.isComposite_eq hlive, hx]
  · rw [isComposite, Option.not_isSome_iff_eq_none.mp hlive]

theorem Descended.isSource_of_isSource {p : PortId} (h : start.Descended d)
    (hp : start.isSource p = true) : d.isSource p = true := by
  rw [isSource] at hp ⊢
  cases hside : p.side with
  | output =>
      rw [hside] at hp
      simpa using h.isComposite_of_false (by simpa using hp)
  | input =>
      rw [hside] at hp
      exact hp

namespace Inlined

variable (h : start.Inlined keep d)
include h

/-- Where signals arose, nothing drives a port. -/
theorem undriven (hlast : start.Source last) : d.incoming last = none :=
  h.wellFormed.undriven_of_isSource (h.traced.descended.isSource_of_isSource hlast.2)

/-- One more composite has been taken apart. -/
theorem lift (h' : d'.WellFormed) (hlifted : Lifted inner outer d d') (hdescended : d.Descended d')
    (htraced : start.Traced d') {ports : List PortId} (hports : ∀ port ∈ ports, port.block = inner)
    (hincoming : d'.incoming = ports.foldl detoured d.incoming)
    (hup : parentAt d.place? inner = some outer) (hcomposite : d.isComposite inner = true)
    (hopen : ¬d.Sheltered keep inner) : start.Inlined keep d' := by
  have hroot := (h.wellFormed.rooted.up_lt hup).1
  have hlive : ∀ {x}, (d'.block? x).isSome ↔ (d.block? x).isSome ∧ x ≠ inner :=
    h.wellFormed.live_lifted h' hroot hlifted
  have hinner := block?_isSome_iff.mpr (isSome_of_parentAt hup)
  have hkind := h.traced.descended.isComposite_eq hinner
  refine ⟨h', ?_, htraced, fun x hx => ?_, fun x hx hstays => ?_, fun p hp => ?_,
    fun p last hp hlast => ?_⟩
  · rw [hincoming]
    exact h.grounded.detourAll ports
  · rw [sheltered_lifted h.wellFormed h' hlifted hdescended hup hopen hx,
      h.sheltered x (hlive.mp hx).1]
  · refine hlive.mpr ⟨h.stays x hx hstays, ?_⟩
    rintro rfl
    rcases hstays with hprimitive | htop | hsheltered
    · rw [hprimitive, hcomposite] at hkind
      cases hkind
    · exact hroot htop
    · exact hopen ((h.sheltered x hinner).mpr hsheltered)
  · rw [hincoming]
    exact foldl_detoured_eq_none (h.loose p hp)
  · have hblock := isSome_block?_of_port? hp
    have hlast' : last.block ≠ inner := by
      intro heq
      obtain ⟨_, hsource⟩ := hlast
      rw [isSource, heq, ← hkind, hcomposite] at hsource
      cases hside : last.side with
      | output => simp [hside] at hsource
      | input =>
          rw [hside] at hsource
          exact hroot (of_decide_eq_true hsource)
    rw [hincoming, ends_detourAll_iff h.grounded (fun hmem => (hlive.mp hblock).2 (hports p hmem))
      (fun hmem => hlast' (hports last hmem)) (h.undriven hlast)]
    refine h.ends p last ?_ hlast
    rwa [← hdescended.port?_isSome hblock rfl]

end Inlined

end Diagram

namespace Edit

variable {e e' : Editor α} {start : Diagram α} {keep : List String} {inner outer id : BlockId}

theorem dissolve_total (h : start.Inlined keep e.diagram) (hstart : start.Rooted)
    (hplain : start.PlainNames) (hup : parentAt e.diagram.place? inner = some outer)
    (hcomposite : e.diagram.isComposite inner = true) (hopen : ¬e.diagram.Sheltered keep inner) :
    ∃ e', dissolve outer inner e = .ok () e' ∧ start.Inlined keep e'.diagram := by
  have hlisted := h.wellFormed.listed hup
  obtain ⟨e', ports, hok, htraced, hincoming, hports⟩ :=
    dissolve_runs h.wellFormed h.grounded h.traced hstart hplain hlisted
  obtain ⟨hwell, hlifted⟩ := dissolve_ok h.wellFormed hlisted hok
  have hdescended := ((Block.sameWork_enduring e.diagram).keptByFlattening.dissolve outer inner).ok
    (Diagram.Descended.refl e.diagram) hok
  exact ⟨e', hok, h.lift hwell hlifted hdescended htraced hports hincoming hup hcomposite hopen⟩

/-- While the composites in one that is not sheltered are taken apart: those that are handled
are gone, or of a type to keep. -/
structure Inlining (place : BlockId → Option Place) (start : Diagram α) (keep : List String)
    (id : BlockId) (rest : List BlockId) (d : Diagram α) : Prop where
  flattening : Flattening place id rest d
  inlined : start.Inlined keep d
  exposed : ¬start.Sheltered keep id
  settled : ∀ y, parentAt d.place? y = some id → y ∈ rest ∨ start.Settled keep y

namespace Inlining

variable {place : BlockId → Option Place} {d : Diagram α} {child : BlockId} {rest : List BlockId}

theorem of_children (h : start.Inlined keep d) (hopen : ¬start.Sheltered keep id) :
    Inlining d.place? start keep id (childrenAt d.place? id) d where
  flattening := ⟨h.wellFormed, h.wellFormed.tree.nodup id,
    fun child hchild => (h.wellFormed.tree.child id child hchild).2.1, fun _ _ _ => .rfl⟩
  inlined := h
  exposed := hopen
  settled _ hy := .inl (h.wellFormed.listed hy)

variable (h : Inlining place start keep id (child :: rest) d)
include h

theorem up : parentAt d.place? child = some id := h.flattening.parents child List.mem_cons_self

theorem live : (d.block? child).isSome :=
  Diagram.block?_isSome_iff.mpr (isSome_of_parentAt h.up)

/-- A child that is not of a type to keep is not sheltered. -/
theorem exposed_child (hunlisted : ¬start.Listed keep child) : ¬start.Sheltered keep child := by
  have hlisted : d.Listed keep child ↔ start.Listed keep child :=
    h.inlined.traced.descended.listed_iff h.live
  rw [← h.inlined.sheltered child h.live, Diagram.sheltered_iff, hlisted, not_or]
  refine ⟨hunlisted, ?_⟩
  rintro ⟨up, hup, hsheltered⟩
  rw [Diagram.WellFormed.parentOf_iff, h.up, Option.some.injEq] at hup
  subst hup
  refine h.exposed ((h.inlined.sheltered id ?_).mp hsheltered)
  exact Diagram.block?_isSome_iff.mpr (h.inlined.wellFormed.rooted.live_up h.up)

/-- A child that is to stay is passed over. -/
theorem skip (hsettled : start.Settled keep child) : Inlining place start keep id rest d where
  flattening := h.flattening.skip
  inlined := h.inlined
  exposed := h.exposed
  settled y hy := by
    rcases h.settled y hy with hmem | hsettled
    · rcases List.mem_cons.mp hmem with rfl | hmem
      · exact .inr hsettled
      · exact .inl hmem
    · exact .inr hsettled

end Inlining

/-- A child that is to be taken apart is, after everything inside it. -/
theorem inlineChild_total {place : BlockId → Option Place} {child : BlockId} {rest : List BlockId}
    {depth : Nat} (h : Inlining place start keep id (child :: rest) e.diagram)
    (hstart : start.Rooted) (hplain : start.PlainNames)
    (hcomposite : start.isComposite child = true) (hunlisted : ¬start.Listed keep child)
    (hinner : ∃ e', flattenTo keep depth child e = .ok () e' ∧ start.Inlined keep e'.diagram ∧
      ∀ y, parentAt e'.diagram.place? y = some child → start.Settled keep y) :
    ∃ e', (do flattenTo keep depth child; dissolve id child : Edit α Unit) e = .ok () e' ∧
      Inlining place start keep id rest e'.diagram := by
  have hlt := (h.inlined.wellFormed.rooted.up_lt h.up).2
  obtain ⟨e₁, hflatten, h₁, hsettled₁⟩ := hinner
  obtain ⟨_, hframe⟩ := flattenTo_ok keep depth h.inlined.wellFormed hflatten
  have hchild₁ := (hframe child id hlt).mpr h.up
  have hlive₁ := Diagram.block?_isSome_iff.mpr (isSome_of_parentAt hchild₁)
  have hopen₁ : ¬e₁.diagram.Sheltered keep child := by
    rw [h₁.sheltered child hlive₁]
    exact h.exposed_child hunlisted
  have hcomposite₁ := (h₁.traced.descended.isComposite_eq hlive₁).trans hcomposite
  obtain ⟨e₂, hdissolve, h₂⟩ := dissolve_total h₁ hstart hplain hchild₁ hcomposite₁ hopen₁
  obtain ⟨_, hparents⟩ := dissolve_ok h₁.wellFormed (h₁.wellFormed.listed hchild₁) hdissolve
  refine ⟨e₂, EStateM.bind_eq_ok.mpr ⟨(), e₁, hflatten, hdissolve⟩,
    h.flattening.next h₁.wellFormed hframe hdissolve, h₂, h.exposed, fun y hy => ?_⟩
  rw [hparents] at hy
  split at hy
  next => cases hy
  next hne =>
    split at hy
    next hmoved => exact .inr (hsettled₁ y hmoved)
    next =>
      refine (h.settled y ((hframe y id hlt).mp hy)).imp_left fun hmem => ?_
      exact (List.mem_cons.mp hmem).resolve_left hne

/-- A child is taken apart, or stays if it is a primitive or to be kept. -/
theorem settleChild_total {place : BlockId → Option Place} {child : BlockId} {rest : List BlockId}
    {depth : Nat} (h : Inlining place start keep id (child :: rest) e.diagram)
    (hstart : start.Rooted) (hplain : start.PlainNames)
    (hinside : ∀ inner, e.diagram.block? child = some inner → inner.isComposite = true →
      ¬start.Sheltered keep child → ∃ e', flattenTo keep depth child e = .ok () e' ∧
        start.Inlined keep e'.diagram ∧
          ∀ y, parentAt e'.diagram.place? y = some child → start.Settled keep y) :
    ∃ e', visit keep depth id child e = .ok () e' ∧
      Inlining place start keep id rest e'.diagram := by
  have hroot := (h.inlined.wellFormed.rooted.up_lt h.up).1
  obtain ⟨inner, hinner, _⟩ := exists_block_of_parentAt h.up
  have hdescended := h.inlined.traced.descended
  have hkind : start.isComposite child = inner.isComposite := by
    rw [← hdescended.isComposite_eq h.live, Diagram.isComposite, hinner]
  have hlisted : start.Listed keep child ↔
      inner.isComposite = true ∧ inner.operator.typeName ∈ keep := by
    rw [← hdescended.listed_iff h.live]
    simp [Diagram.Listed, hinner, Diagram.root, hroot]
  rw [visit, block_bind hinner]
  by_cases hapart : inner.isComposite ∧ inner.operator.typeName ∉ keep
  · have hunlisted : ¬start.Listed keep child := fun h => hapart.2 (hlisted.mp h).2
    rw [if_pos hapart]
    exact inlineChild_total h hstart hplain (hkind.trans hapart.1) hunlisted
      (hinside inner hinner hapart.1 (h.exposed_child hunlisted))
  · rw [if_neg hapart]
    refine ⟨e, rfl, h.skip fun hcomposite => hlisted.mpr ?_⟩
    rw [hkind] at hcomposite
    exact ⟨hcomposite, by_contra fun hnot => hapart ⟨hcomposite, hnot⟩⟩

/-- Flattening succeeds, and leaves no composite in the one that is flattened, but those to be
kept. Depth is not used up on the way down, as places grow. -/
theorem flattenTo_total (depth : Nat) (h : start.Inlined keep e.diagram) (hstart : start.Rooted)
    (hplain : start.PlainNames) {b : Block α} (hb : e.diagram.block? id = some b)
    (hcomposite : b.isComposite = true) (hopen : ¬start.Sheltered keep id)
    (hdepth : ∀ x, (start.block? x).isSome → x.index < id.index + depth) :
    ∃ e', flattenTo keep depth id e = .ok () e' ∧ start.Inlined keep e'.diagram ∧
      ∀ y, parentAt e'.diagram.place? y = some id → start.Settled keep y := by
  induction depth generalizing id e b with
  | zero =>
      refine ⟨e, rfl, h, fun y hy => ?_⟩
      have hlt := (h.wellFormed.rooted.up_lt hy).2
      have hlive := h.traced.descended.live (Diagram.block?_isSome_iff.mpr (isSome_of_parentAt hy))
      exact absurd (hdepth y hlive) (by omega)
  | succ depth ih =>
      have hbegin := Inlining.of_children h hopen
      rw [Diagram.childrenAt_eq hb] at hbegin
      obtain ⟨e', hrun, hdone⟩ := EStateM.forM_total
        (P := fun rest (e₁ : Editor α) => Inlining e.diagram.place? start keep id rest e₁.diagram)
        (fun child rest e₁ hstep => settleChild_total hstep hstart hplain
          fun inner hinner hinside hexposed => by
            refine ih hstep.inlined hinner hinside hexposed fun x hx => ?_
            have hlt := (hstep.inlined.wellFormed.rooted.up_lt hstep.up).2
            have hbound := hdepth x hx
            omega)
        hbegin
      exact ⟨e', (flattenTo_apply hb hcomposite).trans hrun, hdone.inlined,
        fun y hy => (hdone.settled y hy).resolve_left List.not_mem_nil⟩

end Edit

/-! ### Flattened diagrams -/

namespace Diagram

variable {start d d' : Diagram α} {keep : List String} {x y : BlockId} {p last : PortId}

/-- What flattening makes of a diagram. Of the composites, those are left that are to be kept;
what is left does the same work under the same path; no port is linked that was not; and
every port gets its signal from where it got it before. -/
structure Flattened (d : Diagram α) (keep : List String) (d' : Diagram α) : Prop where
  live : ∀ x, (d'.block? x).isSome ↔
    (d.block? x).isSome ∧ (d.isComposite x = false ∨ x = d.root ∨ d.Sheltered keep x)
  work : ∀ x b b', d.block? x = some b → d'.block? x = some b' → b.SameWork b'
  path : ∀ x, x ≠ d.root → (d'.block? x).isSome → d'.pathOf x = d.pathOf x
  loose : ∀ p, d.incoming p = none → d'.incoming p = none
  closed : ∀ p, (d'.port? p).isSome → ∃ last, d'.prevClosure p = .ok last
  source : ∀ p, (d'.port? p).isSome → d'.source? p = d.source? p
  driver : ∀ p, p.block ≠ d.root → (d'.port? p).isSome → d'.driverOf p = d.driverOf p

theorem WellFormed.exposed_root (h : d.WellFormed) : ¬d.Sheltered keep ⟨0⟩ := by
  rintro ⟨y, hpath, hroot, _⟩
  rcases Relation.ReflTransGen.cases_head hpath with rfl | ⟨up, hup, _⟩
  · exact hroot rfl
  · rw [WellFormed.parentOf_iff, h.top.2] at hup
    cases hup

namespace Inlined

variable (h : start.Inlined keep d)
include h

/-- When all children of the root are settled, all composites below it are sheltered. -/
theorem sheltered_of_settled
    (hsettled : ∀ y, parentAt d.place? y = some ⟨0⟩ → start.Settled keep y)
    (hx : (d.block? x).isSome) (hroot : x ≠ ⟨0⟩) (hcomposite : start.isComposite x = true) :
    start.Sheltered keep x := by
  have hdown : ∀ n (x : BlockId), x.index < n → (d.block? x).isSome → x ≠ ⟨0⟩ →
      start.isComposite x = true → d.Sheltered keep x := by
    intro n
    induction n with
    | zero => exact fun _ hlt => absurd hlt (Nat.not_lt_zero _)
    | succ n ih =>
        intro x hlt hx hroot hcomposite
        obtain ⟨up, hup⟩ := h.wellFormed.rooted.exists_up (block?_isSome_iff.mp hx) hroot
        rw [sheltered_iff, h.traced.descended.listed_iff hx]
        by_cases htop : up = ⟨0⟩
        · exact .inl (hsettled x (htop ▸ hup) hcomposite)
        · have hlt' := (h.wellFormed.rooted.up_lt hup).2
          have hlive := block?_isSome_iff.mpr (h.wellFormed.rooted.live_up hup)
          have hkind := (h.wellFormed.tree.child up x (h.wellFormed.listed hup)).2.2.1
          rw [compositeAt_eq_isComposite, h.traced.descended.isComposite_eq hlive] at hkind
          exact .inr ⟨up, WellFormed.parentOf_iff.mpr hup, ih up (by omega) hlive htop hkind⟩
  exact (h.sheltered x hx).mp (hdown (x.index + 1) x (Nat.lt_succ_self _) hx hroot hcomposite)

/-- Signals arise where they arose. -/
theorem source_iff : d.Source last ↔ start.Source last := by
  have hdescended := h.traced.descended
  constructor
  · rintro ⟨hport, hsource⟩
    have hlive := isSome_block?_of_port? hport
    refine ⟨by rwa [← hdescended.port?_isSome hlive rfl], ?_⟩
    rwa [isSource, ← hdescended.isComposite_eq hlive]
  · rintro ⟨hport, hsource⟩
    have hblock := isSome_block?_of_port? hport
    have hlive : (d.block? last.block).isSome := by
      refine h.stays _ hblock ?_
      rw [isSource] at hsource
      cases hside : last.side with
      | output => exact .inl (by simpa [hside] using hsource)
      | input =>
          rw [hside] at hsource
          exact .inr (.inl (of_decide_eq_true hsource))
    refine ⟨by rwa [hdescended.port?_isSome hlive rfl], ?_⟩
    rwa [isSource, hdescended.isComposite_eq hlive]

theorem source?_eq (hstart : start.WellFormed) (hp : (d.port? p).isSome) :
    d.source? p = start.source? p := by
  have hp' : (start.port? p).isSome := by
    rwa [← h.traced.descended.port?_isSome (isSome_block?_of_port? hp) rfl]
  refine Option.ext fun last => ?_
  rw [h.wellFormed.source?_eq_some_iff hp, hstart.source?_eq_some_iff hp', h.source_iff]
  exact and_congr_left (h.ends p last hp)

/-- With all children of the root settled, the diagram is flattened. -/
theorem flattened (hstart : start.WellFormed)
    (hclosed : ∀ p, (start.port? p).isSome → ∃ last, start.prevClosure p = .ok last)
    (hsettled : ∀ y, parentAt d.place? y = some ⟨0⟩ → start.Settled keep y) :
    start.Flattened keep d := by
  have hdescended := h.traced.descended
  have hwork : ∀ x b b', start.block? x = some b → d.block? x = some b' → b.SameWork b' := by
    intro x b b' hb hb'
    obtain ⟨old, hold, hwork⟩ := hdescended x b' hb'
    cases hb.symm.trans hold
    exact hwork
  have hclosed' : ∀ p, (d.port? p).isSome → ∃ last, d.prevClosure p = .ok last := by
    intro p hp
    obtain ⟨last, hlast⟩ := h.grounded p
    exact ⟨last, (h.wellFormed.prevClosure_eq_ok_iff hp).mpr hlast⟩
  refine ⟨fun x => ⟨fun hx => ⟨hdescended.live hx, ?_⟩, fun hx => h.stays x hx.1 hx.2⟩, hwork,
    fun x hroot hx => h.traced.path x hroot (block?_isSome_iff.mp hx), h.loose, hclosed',
    fun p hp => h.source?_eq hstart hp, fun p hroot hp => ?_⟩
  · cases hkind : start.isComposite x with
    | false => exact .inl rfl
    | true =>
        refine .inr (or_iff_not_imp_left.mpr fun hroot => ?_)
        exact h.sheltered_of_settled hsettled hx hroot hkind
  · have hblock := isSome_block?_of_port? hp
    obtain ⟨b', hb'⟩ := Option.isSome_iff_exists.mp hblock
    obtain ⟨b, hb, _⟩ := hdescended p.block b' hb'
    obtain ⟨port', hport'⟩ := Option.isSome_iff_exists.mp hp
    have hnames := congrArg (fun names => names[p.index]?) ((hwork p.block b b' hb hb').ports p.side)
    rw [List.getElem?_map, List.getElem?_map, ← port?_eq hb, ← port?_eq hb', hport'] at hnames
    obtain ⟨port, hport, hname⟩ := Option.map_eq_some_iff.mp hnames.symm
    rw [driverOf_eq (hclosed' p hp) hport', driverOf_eq (hclosed p (by rw [hport]; rfl)) hport,
      h.source?_eq hstart hp, h.traced.path _ hroot (block?_isSome_iff.mp hblock), hname]

end Inlined

/-! Samples play no part in it. -/

theorem place?_clearSignals (d : Diagram α) : d.clearSignals.place? = d.place? :=
  place?_mapPorts fun _ => rfl

theorem incoming_clearSignals (d : Diagram α) : d.clearSignals.incoming = d.incoming :=
  incoming_mapPorts fun _ => rfl

theorem port?_isSome_clearSignals : (d.clearSignals.port? p).isSome = (d.port? p).isSome := by
  rw [port?_clearSignals, Option.isSome_map]

theorem block?_isSome_clearSignals : (d.clearSignals.block? x).isSome = (d.block? x).isSome := by
  rw [block?_clearSignals, Option.isSome_map]

theorem source?_clearSignals (d : Diagram α) (p : PortId) :
    d.clearSignals.source? p = d.source? p := by
  rw [source?, source?, prevClosure_clearSignals]
  simp only [isSource_clearSignals]

theorem sheltered_clearSignals : d.clearSignals.Sheltered keep x ↔ d.Sheltered keep x := by
  have hparent : d.clearSignals.ParentOf = d.ParentOf := by
    funext x up
    rw [eq_iff_iff, WellFormed.parentOf_iff, WellFormed.parentOf_iff, place?_clearSignals]
  have hlisted : ∀ y, d.clearSignals.Listed keep y ↔ d.Listed keep y := by
    intro y
    rw [Listed, Listed, block?_clearSignals]
    cases d.block? y <;> simp [Block.bare, Block.isComposite, root]
  simp only [Sheltered, hparent, hlisted]

theorem PlainNames.clearSignals (h : d.PlainNames) : d.clearSignals.PlainNames := by
  intro x b hb
  rw [block?_clearSignals] at hb
  obtain ⟨old, hold, rfl⟩ := Option.map_eq_some_iff.mp hb
  refine ⟨(h x old hold).1, fun p hp => ?_⟩
  rw [Block.bare, ← List.map_append] at hp
  obtain ⟨q, hq, rfl⟩ := List.mem_map.mp hp
  exact (h x old hold).2 q hq

theorem Flattened.of_clearSignals (h : d.clearSignals.Flattened keep d') : d.Flattened keep d' where
  live x := by
    rw [h.live x, block?_isSome_clearSignals, isComposite_clearSignals, sheltered_clearSignals]
    rfl
  work x b b' hb hb' := by
    have hwork := h.work x b.bare b' (by rw [block?_clearSignals, hb]; rfl) hb'
    refine ⟨hwork.operator, hwork.rate, fun side => ?_⟩
    rw [hwork.ports side, Block.ports_bare, List.map_map]
    rfl
  path x hroot hx := by rw [h.path x hroot hx, pathOf_clearSignals]
  loose p hp := h.loose p (by rwa [incoming_clearSignals])
  closed := h.closed
  source p hp := by rw [h.source p hp, source?_clearSignals]
  driver p hroot hp := by rw [h.driver p hroot hp, driverOf_clearSignals]

/-- Flattening succeeds, and keeps everything but composites. -/
theorem WellFormed.flattened_ok (h : d.WellFormed)
    (hclosed : ∀ p, (d.port? p).isSome → ∃ last, d.prevClosure p = .ok last)
    (hplain : d.PlainNames) (keep : List String) :
    ∃ d', d.flattened keep = .ok d' ∧ d.Flattened keep d' ∧ d'.WellFormed ∧ d'.Unsampled := by
  have hstart : d.clearSignals.WellFormed := h.mapPorts (fun _ => rfl) (fun _ => rfl) fun _ => rfl
  have hclosed' : ∀ p, (d.clearSignals.port? p).isSome →
      ∃ last, d.clearSignals.prevClosure p = .ok last := by
    intro p hp
    rw [prevClosure_clearSignals]
    exact hclosed p (by rwa [← port?_isSome_clearSignals])
  obtain ⟨b, hb⟩ := Option.isSome_iff_exists.mp hstart.live_root
  have hcomposite : b.isComposite = true := by
    have htop := hstart.top.1
    rwa [compositeAt_eq_isComposite, isComposite, hb] at htop
  have hbegin : d.clearSignals.Inlined keep d.clearSignals := .refl hstart (hstart.grounded hclosed')
  have hdepth : ∀ x, (d.clearSignals.block? x).isSome → x.index < 0 + d.clearSignals.blocks.size := by
    intro x hx
    obtain ⟨b, hb⟩ := Option.isSome_iff_exists.mp hx
    rw [Nat.zero_add]
    exact lt_size_of_block? hb
  obtain ⟨e', hok, hinlined, hsettled⟩ := Edit.flattenTo_total (e := { diagram := d.clearSignals })
    _ hbegin hstart.rooted hplain.clearSignals hb hcomposite hstart.exposed_root hdepth
  have hflatten : Edit.flatten d.root keep { diagram := d.clearSignals } = .ok () e' :=
    EStateM.bind_eq_ok.mpr ⟨_, _, rfl, hok⟩
  refine ⟨e'.diagram, by rw [Diagram.flattened, hflatten],
    (hinlined.flattened hstart hclosed' hsettled).of_clearSignals, hinlined.wellFormed, ?_⟩
  exact (Block.unsampled_enduring.keptByFlattening.flattenTo keep _ _).ok
    (e := { diagram := d.clearSignals }) (unsampled_clearSignals d) hok

/-- A diagram without circles of links, and without points in names, can be flattened, whatever
is to be kept. -/
theorem Built.exists_flattened [Scalar α] (h : d.Built)
    (hclosed : ∀ p, (d.port? p).isSome → ∃ last, d.prevClosure p = .ok last)
    (hplain : d.PlainNames) (keep : List String) :
    ∃ d', d.flattened keep = .ok d' ∧ d.Flattened keep d' := by
  obtain ⟨d', hok, hflattened, _⟩ := h.wellFormed.flattened_ok hclosed hplain keep
  exact ⟨d', hok, hflattened⟩

/-- That no links go in circles can be found out port by port. -/
theorem closed_of_allPorts (h : ∀ p ∈ d.allPorts, (d.prevClosure p).toOption.isSome) :
    ∀ p, (d.port? p).isSome → ∃ last, d.prevClosure p = .ok last := by
  intro p hp
  obtain ⟨port, hport⟩ := Option.isSome_iff_exists.mp hp
  have hsome := h p (mem_allPorts hport)
  cases hlast : d.prevClosure p with
  | ok last => exact ⟨last, rfl⟩
  | error failure => simp [hlast, Except.toOption] at hsome

/-- A composite to be kept inside another one, a composite that drives itself, and one that only
passes a signal on. -/
theorem exists_flattened_nested : ∃ d : Diagram Float, d.Built ∧
    (∀ p, (d.port? p).isSome → ∃ last, d.prevClosure p = .ok last) ∧ d.PlainNames ∧
      d.incoming (.input ⟨4⟩ 0) = some (.output ⟨4⟩ 0) ∧
        ∃ d', d.flattened ["Keep"] = .ok d' ∧ d.Flattened ["Keep"] d' := by
  let calls : List (DiagramCall Float) := [
    .addComposite ⟨0⟩ "box" "Box" ["IN1"] ["OUT1"],
    .addComposite ⟨1⟩ "kept" "Keep" ["IN1"] ["OUT1"],
    .addBlock ⟨2⟩ "neg" .negator,
    .addComposite ⟨0⟩ "ring" "Ring" ["IN1"] ["OUT1"],
    .addBlock ⟨4⟩ "gain" (.gain 2),
    .addComposite ⟨0⟩ "pass" "Pass" ["IN1"] ["OUT1"],
    .connect ⟨2⟩ "IN1" "neg" none none,
    .connect ⟨2⟩ "neg" "OUT1" none none,
    .connect ⟨1⟩ "IN1" "kept" none none,
    .connect ⟨1⟩ "kept" "OUT1" none none,
    .connect ⟨4⟩ "IN1" "gain" none none,
    .connect ⟨4⟩ "gain" "OUT1" none none,
    .connect ⟨6⟩ "IN1" "OUT1" none none,
    .connect ⟨0⟩ "X" "box" none none,
    .connect ⟨0⟩ "box" "Y" none none,
    .connect ⟨0⟩ "ring" "ring" none none,
    .connect ⟨0⟩ "X" "pass" none none,
    .connect ⟨0⟩ "pass" "Z" none none]
  let d := (performAll { diagram := .empty "m" ["X"] ["Y", "Z"] } calls).diagram
  have hbuilt : d.Built := (Built.empty "m" ["X"] ["Y", "Z"]).performAll
    (e := { diagram := .empty "m" ["X"] ["Y", "Z"] }) (by simp [calls, DiagramCall.Allowed])
  have hclosed : ∀ p ∈ d.allPorts, (d.prevClosure p).toOption.isSome := by decide +kernel
  have hplain : ∀ b? ∈ d.blocks.toList, ∀ b ∈ b?, Plain b.name ∧
      ∀ p ∈ b.inputs ++ b.outputs, Plain p.name := by decide +kernel
  have hclosed' := closed_of_allPorts hclosed
  exact ⟨d, hbuilt, hclosed', .of_mem hplain, by decide +kernel,
    hbuilt.exists_flattened hclosed' (.of_mem hplain) ["Keep"]⟩

end Diagram

end CausalBlocks
