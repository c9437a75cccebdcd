import CausalBlocks.Proofs.Diagram.Insulation
import CausalBlocks.Proofs.Diagram.Retiming

/-!
# A clock for a diagram without one

A run gives a diagram without a clock a clock and a constant for its step, side by side and
linked. The new blocks come after the old ones, so that they lie beyond every cone of these, and
diagrams that are the same beyond a cone remain so.
-/

namespace CausalBlocks

variable {α : Type}

/-- A name that is not taken is neither that of a child nor that of a port. -/
theorem Block.free_of_notTaken {b : Block α} {name : String} (h : name ∉ b.takenNames) :
    b.child? name = none ∧ b.inputIndex? name = none ∧ b.outputIndex? name = none := by
  simp only [takenNames, List.mem_append, List.mem_map, not_or, not_exists, not_and] at h
  obtain ⟨hchildren, hports⟩ := h
  refine ⟨List.lookup_eq_none_iff.mpr fun entry hentry => ?_, List.findIdx?_eq_none_iff.mpr
    fun p hp => ?_, List.findIdx?_eq_none_iff.mpr fun p hp => ?_⟩
  · simpa using fun heq => hchildren entry hentry heq.symm
  · simpa using hports p (.inl hp)
  · simpa using hports p (.inr hp)

namespace Diagram

variable {d e : Diagram α} {c parent : BlockId} {p : PortId} {cone : PortId → Prop} {name : String}
  {b : Block α}

/-! ### Cones of a growing diagram -/

/-- A port belongs to one of the first blocks. -/
def Early (size : Nat) (p : PortId) : Prop := p.block.index < size

namespace Cone

variable (h : d.Cone c cone)
include h

theorem adopted_make {op : Operator α} {inputs outputs : List String} :
    (d.adopted parent name [.make name op (some parent) inputs outputs]).Cone c cone where
  start := h.start
  link p q hpq := h.link p q (by rwa [incoming_adopted_make] at hpq)
  through id i hprimitive := by
    refine h.through id i ?_
    rw [isComposite] at hprimitive ⊢
    cases hb : d.block? id with
    | none => rfl
    | some b =>
        by_cases hid : id = parent
        · subst hid
          rw [block?_adopted_parent hb] at hprimitive
          exact hprimitive
        · rw [block?_adopted_of_ne hb hid] at hprimitive
          exact hprimitive

theorem linked {source target : PortId} (htarget : (d.port? target).isSome)
    (hsource : ¬cone source) : (d.linked source target).Cone c cone where
  start := h.start
  link p q hpq := by
    rw [incoming_linked htarget] at hpq
    dsimp only at hpq
    split at hpq
    next =>
      cases hpq
      exact fun hp => absurd hp hsource
    next => exact h.link p q hpq
  through id i hprimitive := by
    refine h.through id i ?_
    rw [← compositeAt_eq_isComposite] at hprimitive ⊢
    rwa [place?_linked] at hprimitive

end Cone

theorem SameFrame.modifyBlock (h : SameFrame d e) {id : BlockId} {f g : Block α → Block α}
    (hf : ∀ b, (f b).frame = g b.frame) : SameFrame (d.modifyBlock id f) (e.modifyBlock id f) := by
  intro x
  have hcomp : Block.frame ∘ f = g ∘ Block.frame := funext hf
  rw [block?_modifyBlock, block?_modifyBlock]
  split
  next => rw [Option.map_map, Option.map_map, hcomp, ← Option.map_map, ← Option.map_map, h x]
  next => exact h x

namespace SameBeyond

variable (h : SameBeyond c cone d e)
include h

/-- A change of one block that leaves its operator, its rate and its samples alone. -/
theorem modifyBlock {id : BlockId} {f g : Block α → Block α} (hf : ∀ b, (f b).frame = g b.frame)
    (hoperator : ∀ b, (f b).operator = b.operator) (hrate : ∀ b, (f b).rate = b.rate)
    (hhistory : ∀ (d : Diagram α) p, (d.modifyBlock id f).history? p = d.history? p) :
    SameBeyond c cone (d.modifyBlock id f) (e.modifyBlock id f) where
  frame := h.frame.modifyBlock hf
  size := by rw [size_modifyBlock, size_modifyBlock, h.size]
  block x b hb := by
    rw [block?_modifyBlock] at hb ⊢
    split at hb
    next hx =>
      obtain ⟨old, hold, rfl⟩ := Option.map_eq_some_iff.mp hb
      obtain ⟨b', hb', hrate', hrevalued, hother⟩ := h.block x old hold
      rw [if_pos hx, hb']
      refine ⟨f b', rfl, ?_, ?_, fun hne => ?_⟩
      · rw [hrate, hrate, hrate']
      · rwa [hoperator, hoperator]
      · rw [hoperator, hoperator, hother hne]
    next hx =>
      rw [if_neg hx]
      exact h.block x b hb
  same p hp := by rw [hhistory, hhistory, h.same p hp]

theorem append (blocks : List (Block α)) :
    SameBeyond c cone { d with blocks := d.blocks ++ (blocks.map some).toArray }
      { e with blocks := e.blocks ++ (blocks.map some).toArray } where
  frame x := by
    rw [block?_append, block?_append, h.size]
    split
    next => exact h.frame x
    next => rfl
  size := by simp [h.size]
  block x b hb := by
    rw [block?_append] at hb ⊢
    rw [h.size]
    split at hb
    next hx =>
      rw [if_pos hx]
      exact h.block x b hb
    next hx =>
      rw [if_neg hx]
      exact ⟨b, hb, rfl, .inl rfl, fun _ => rfl⟩
  same p hp := by
    have hsame := h.same p hp
    rw [history?, history?, port?, port?] at hsame ⊢
    rw [block?_append, block?_append, h.size]
    split
    next => exact hsame
    next => rfl

theorem adopted (blocks : List (Block α)) :
    SameBeyond c cone (d.adopted parent name blocks) (e.adopted parent name blocks) := by
  rw [Diagram.adopted, Diagram.adopted, h.size]
  refine (h.append blocks).modifyBlock (g := fun b => { b with
    children := b.children ++ [⟨d.blocks.size⟩]
    childIndex := b.childIndex ++ [(name, ⟨d.blocks.size⟩)] }) (fun _ => rfl) (fun _ => rfl)
    (fun _ => rfl) fun d p => ?_
  rw [history?, history?, port?_modifyBlock_same fun _ side => by cases side <;> rfl]

/-- A change of one port that leaves its samples alone. -/
theorem modifyPort {q : PortId} {f : Port α → Port α} (hbare : ∀ p, (f p).bare = f p.bare)
    (hhistory : ∀ p, (f p).history = p.history) :
    SameBeyond c cone (d.modifyPort q f) (e.modifyPort q f) := by
  refine h.modifyBlock (g := fun b => b.mapPorts q.side fun ports => ports.modify q.index f)
    (fun b => ?_) (fun b => by cases q.side <;> rfl) (fun b => by cases q.side <;> rfl)
    fun d p => ?_
  · have hmap : ∀ ports : List (Port α), (ports.modify q.index f).map Port.bare =
        (ports.map Port.bare).modify q.index f := by
      intro ports
      refine List.ext_getElem? fun i => ?_
      rw [List.getElem?_map, List.getElem?_modify, List.getElem?_modify, List.getElem?_map]
      cases ports[i]? with
      | none => rfl
      | some p =>
          by_cases hi : q.index = i <;> simp [hi, hbare]
    cases q.side with
    | input =>
        simp only [Block.frame, Block.bare, Block.mapPorts, Block.isComposite, hmap]
        rfl
    | output =>
        simp only [Block.frame, Block.bare, Block.mapPorts, Block.isComposite, hmap]
        rfl
  · change (Diagram.modifyPort d q f).history? p = d.history? p
    rw [history?, history?, port?_modifyPort]
    split
    next =>
      cases d.port? p with
      | none => rfl
      | some port => exact congrArg some (hhistory port)
    next => rfl

theorem linked (source target : PortId) :
    SameBeyond c cone (d.linked source target) (e.linked source target) :=
  (h.modifyPort (q := source) (f := fun p => { p with outgoing := p.outgoing ++ [target] })
    (fun _ => rfl) fun _ => rfl).modifyPort (fun _ => rfl) fun _ => rfl

end SameBeyond

/-! ### The new clock -/

/-- The diagram with a clock in a composite, and a constant that drives its step. -/
def withClock (d : Diagram α) (parent : BlockId) (stem : String) (step start : α) : Diagram α :=
  let clock : Block α := .make (stem ++ "-clock") (.clock start step) (some parent)
    (Operator.clock start step).inputNames (Operator.clock start step).outputNames
  let constant : Block α := .make (stem ++ "-delta") (.constant step) (some parent)
    (Operator.constant step).inputNames (Operator.constant step).outputNames
  Diagram.linked ((d.adopted parent (stem ++ "-clock") [clock]).adopted parent (stem ++ "-delta")
    [constant]) (.output ⟨d.blocks.size + 1⟩ 0) (.input ⟨d.blocks.size⟩ 0)

theorem SameBeyond.withClock (h : SameBeyond c cone d e) (parent : BlockId) (stem : String)
    (step start : α) :
    SameBeyond c cone (d.withClock parent stem step start)
      (e.withClock parent stem step start) := by
  rw [Diagram.withClock, Diagram.withClock, h.size]
  exact ((h.adopted _).adopted _).linked _ _

theorem Cone.withClock (h : d.Cone c cone) (hparent : (d.block? parent).isSome)
    (hearly : ∀ p, cone p → Early d.blocks.size p) (stem : String) (step start : α) :
    (d.withClock parent stem step start).Cone c cone := by
  refine (h.adopted_make.adopted_make).linked ?_ fun hsource => ?_
  · obtain ⟨b, hb⟩ := Option.isSome_iff_exists.mp hparent
    have hne : (⟨d.blocks.size⟩ : BlockId) ≠ parent := by
      rintro rfl
      exact Nat.lt_irrefl _ (lt_size_of_block? hb)
    rw [port?_eq (q := .input ⟨d.blocks.size⟩ 0)
      (block?_adopted_of_ne (block?_adopted_new hparent) hne)]
    rfl
  · exact absurd (hearly _ hsource) (by simp [Early])

/-- The new clock is a block of the diagram that says when it starts. -/
theorem exists_block_withClock (hparent : (d.block? parent).isSome) (stem : String)
    (step start : α) : ∃ b, (d.withClock parent stem step start).block? ⟨d.blocks.size⟩ = some b ∧
      b.operator = .clock start step := by
  obtain ⟨b, hb⟩ := Option.isSome_iff_exists.mp hparent
  have hne : (⟨d.blocks.size⟩ : BlockId) ≠ parent := by
    rintro rfl
    exact Nat.lt_irrefl _ (lt_size_of_block? hb)
  obtain ⟨b', hb', hrewired⟩ :=
    exists_rewired_linked (block?_adopted_of_ne (block?_adopted_new hparent) hne)
  exact ⟨b', hb', by rw [hrewired.rest]; rfl⟩

/-- If the diagram has one clock then, it is the new one. -/
theorem clock_withClock {id : BlockId} {stem : String} {step start : α}
    (hd : (d.withClock parent stem step start).WellFormed) (hparent : (d.block? parent).isSome)
    (h : (d.withClock parent stem step start).clock = .ok id) : id = ⟨d.blocks.size⟩ := by
  obtain ⟨b, hb, hoperator⟩ := exists_block_withClock hparent stem step start
  refine (eq_clock h (hd.mem_primitives_iff.mpr ⟨by rw [hb]; rfl, ?_⟩) hb ?_).symm
  · rw [isComposite, hb]
    dsimp only
    rw [Block.isComposite, hoperator]
    rfl
  · rw [hoperator]
    rfl

/-! ### Adding a clock -/

/-- A composite finds a block by a name that none of its ports has. -/
structure Finds (d : Diagram α) (parent : BlockId) (name : String) (child : BlockId) (b : Block α) :
    Prop where
  named : ∃ outer, d.block? parent = some outer ∧ outer.child? name = some child ∧
    outer.inputIndex? name = none ∧ outer.outputIndex? name = none
  block : d.block? child = some b

namespace Finds

/-- A block that was taken in under a name is found by it. -/
theorem adopted_new {outer : Block α} (hparent : d.block? parent = some outer)
    (hfree : name ∉ outer.takenNames) (b : Block α) :
    (d.adopted parent name [b]).Finds parent name ⟨d.blocks.size⟩ b where
  named := by
    obtain ⟨hnew, hinput, houtput⟩ := Block.free_of_notTaken hfree
    refine ⟨_, block?_adopted_parent hparent, ?_, hinput, houtput⟩
    rw [Block.child?, List.lookup_append, show outer.childIndex.lookup name = none from hnew]
    simp
  block := block?_adopted_new (by rw [hparent]; rfl)

variable {child : BlockId} (h : d.Finds parent name child b)
include h

/-- What is taken in later comes after it. -/
theorem adopted (hne : child ≠ parent) (other : String) (b' : Block α) :
    (d.adopted parent other [b']).Finds parent name child b where
  named := by
    obtain ⟨outer, hparent, hchild, hports⟩ := h.named
    refine ⟨_, block?_adopted_parent hparent, ?_, hports⟩
    rw [Block.child?, List.lookup_append, show outer.childIndex.lookup name = some child from hchild]
    rfl
  block := block?_adopted_of_ne h.block hne

theorem childNamed : d.childNamed parent name = .ok child := by
  obtain ⟨outer, hparent, hchild, _⟩ := h.named
  exact Except.bind_eq_ok.mpr ⟨outer, block_eq hparent, by rw [hchild]; rfl⟩

theorem sourceNamed {index : Nat} (hindex : b.outputIndex? defaultOutput = some index) :
    d.sourceNamed parent name none = .ok (.output child index) := by
  obtain ⟨outer, hparent, _, hinput, _⟩ := h.named
  refine Except.bind_eq_ok.mpr ⟨outer, block_eq hparent, ?_⟩
  rw [hinput]
  exact Except.bind_eq_ok.mpr ⟨child, h.childNamed, Except.bind_eq_ok.mpr
    ⟨b, block_eq h.block, by rw [Option.getD_none, hindex]; rfl⟩⟩

theorem targetNamed {port : String} {index : Nat} (hindex : b.inputIndex? port = some index) :
    d.targetNamed parent name (some port) = .ok (.input child index) := by
  obtain ⟨outer, hparent, _, _, houtput⟩ := h.named
  refine Except.bind_eq_ok.mpr ⟨outer, block_eq hparent, ?_⟩
  rw [houtput]
  exact Except.bind_eq_ok.mpr ⟨child, h.childNamed, Except.bind_eq_ok.mpr
    ⟨b, block_eq h.block, by dsimp only; rw [hindex]; rfl⟩⟩

end Finds

end Diagram

/-- A block that is added is the next one, and the composite finds it by its name. -/
theorem Edit.addBlock_ok {e e' : Editor α} {parent id : BlockId} {name : String} {op : Operator α}
    (hname : name ≠ "") (h : addBlock parent name op e = .ok id e') :
    id = ⟨e.diagram.blocks.size⟩ ∧ (e.diagram.block? parent).isSome ∧
      e'.diagram = e.diagram.adopted parent name
        [.make name op (some parent) op.inputNames op.outputNames] ∧
      e'.diagram.Finds parent name id
        (.make name op (some parent) op.inputNames op.outputNames) := by
  cases insert_numbered _ _ _ _ _ _ _ _ h
  obtain ⟨b, name', hb, _, ⟨_, hgiven⟩, hfree, hdiagram⟩ := insert_ok h
  cases hgiven hname
  refine ⟨rfl, by rw [hb]; rfl, hdiagram, ?_⟩
  rw [hdiagram]
  exact .adopted_new hb hfree _

/-- A clock and then a constant for its step are found by their names. -/
theorem Edit.finds_clock_and_step {e e₁ e₂ : Editor α} {parent clock constant : BlockId}
    {stem : String} {step start : α}
    (hclock : addBlock parent (stem ++ "-clock") (.clock start step) e = .ok clock e₁)
    (hconstant : addBlock parent (stem ++ "-delta") (.constant step) e₁ = .ok constant e₂) :
    e₂.diagram.Finds parent (stem ++ "-clock") clock (.make (stem ++ "-clock") (.clock start step)
        (some parent) (Operator.clock start step).inputNames
        (Operator.clock start step).outputNames) ∧
      e₂.diagram.Finds parent (stem ++ "-delta") constant (.make (stem ++ "-delta") (.constant step)
        (some parent) (Operator.constant step).inputNames
        (Operator.constant step).outputNames) := by
  obtain ⟨rfl, hlive, _, hclock⟩ := addBlock_ok (by simp) hclock
  obtain ⟨_, _, hdiagram, hconstant⟩ := addBlock_ok (by simp) hconstant
  have hne : (⟨e.diagram.blocks.size⟩ : BlockId) ≠ parent := by
    rintro rfl
    exact Option.isSome_iff_ne_none.mp hlive (Diagram.block?_eq_none_of_size_le (Nat.le_refl _))
  refine ⟨?_, hconstant⟩
  rw [hdiagram]
  exact hclock.adopted hne _ _

/-- A clock that is added is the next block, and the link is the one meant. -/
theorem Edit.addFixedRateClock_ok [Scalar α] {e e' : Editor α} {parent id : BlockId} {stem : String}
    {step start : α} (h : addFixedRateClock parent stem step start e = .ok id e') :
    id = ⟨e.diagram.blocks.size⟩ ∧ (e.diagram.block? parent).isSome ∧
      e'.diagram = e.diagram.withClock parent stem step start := by
  simp only [addFixedRateClock, EStateM.bind_eq_ok, EStateM.pure_eq_ok] at h
  obtain ⟨clock, e₁, hclock, constant, e₂, hconstant, _, e₃, hconnect, rfl, rfl⟩ := h
  obtain ⟨hfound, hfound'⟩ := finds_clock_and_step hclock hconstant
  obtain ⟨rfl, hlive, hdiagram, _⟩ := addBlock_ok (by simp) hclock
  obtain ⟨rfl, _, hdiagram', _⟩ := addBlock_ok (by simp) hconstant
  obtain ⟨source, target, hsource, htarget, hports⟩ := connect_ok hconnect
  obtain ⟨_, _, _, _, hlinked⟩ := connectPorts_ok hports
  -- the names mean the output of the constant and the step of the clock
  have houtput := hfound'.sourceNamed
    (List.findIdx?_cons.trans (if_pos (beq_self_eq_true defaultOutput)))
  cases houtput.symm.trans hsource
  have hstep := hfound.targetNamed
    (List.findIdx?_cons.trans (if_pos (beq_self_eq_true clockStepInput)))
  cases hstep.symm.trans htarget
  have hsize : e₁.diagram.blocks.size = e.diagram.blocks.size + 1 := by
    rw [hdiagram, Diagram.size_adopted]
    rfl
  refine ⟨rfl, hlive, ?_⟩
  rw [hlinked, hdiagram', hsize, hdiagram]
  rfl

/-! ### The clock of a run -/

namespace Diagram

variable {d d' e e' : Diagram α} {c clock clock' : BlockId} {cone : PortId → Prop} {b : Block α}
  {step : α}

/-- A cone leaves alone the step that the clock reads and the time that it shows. -/
def SparesClock (d : Diagram α) (cone : PortId → Prop) : Prop :=
  ∀ clock, d.clock = .ok clock → ¬cone (.input clock 0) ∧ ¬cone (.output clock 0)

variable [Scalar α]

/-- The diagram with which a run counts time, and its clock. -/
inductive Clocked (d : Diagram α) (step : α) : Diagram α → BlockId → Prop
  | found {clock : BlockId} (h : d.clock = .ok clock) : Clocked d step d clock
  | added {stem name : String} (hmissing : d.clock = .error (.missingClock name))
      (hstem : d.uniqueName d.root "clock" false = .ok stem)
      (hroot : (d.block? d.root).isSome) :
      Clocked d step (d.withClock d.root stem step 0) ⟨d.blocks.size⟩

theorem SameBeyond.clocked (h : SameBeyond c cone d e) (hd : d.Clocked step d' clock)
    (he : e.Clocked step e' clock') : clock' = clock ∧ SameBeyond c cone d' e' := by
  cases hd with
  | found hfound =>
      cases he with
      | found hfound' =>
          rw [h.clock, hfound] at hfound'
          cases hfound'
          exact ⟨rfl, h⟩
      | added hmissing =>
          rw [h.clock, hfound] at hmissing
          cases hmissing
  | added hmissing hstem =>
      cases he with
      | found hfound =>
          rw [h.clock, hmissing] at hfound
          cases hfound
      | added _ hstem' =>
          cases (h.frame.uniqueName hstem).symm.trans hstem'
          exact ⟨by rw [h.size], h.withClock _ _ _ _⟩

/-- A cone of the first blocks remains one. -/
theorem Cone.clocked (h : d.Cone c cone) (hearly : ∀ p, cone p → Early d.blocks.size p)
    (hclocked : d.Clocked step d' clock) : d'.Cone c cone := by
  cases hclocked with
  | found => exact h
  | added _ _ hroot => exact h.withClock hroot hearly _ _ _

/-- A cone of the first blocks leaves a new clock alone as well. -/
theorem SparesClock.clocked (h : d.SparesClock cone) (hearly : ∀ p, cone p → Early d.blocks.size p)
    (hclocked : d.Clocked step d' clock) (hclock : d'.clock = .ok clock) :
    d'.SparesClock cone := by
  cases hclocked with
  | found => exact h
  | added =>
      intro id hid
      cases hclock.symm.trans hid
      exact ⟨fun hinside => Nat.lt_irrefl _ (hearly _ hinside),
        fun hinside => Nat.lt_irrefl _ (hearly _ hinside)⟩

end Diagram

end CausalBlocks
