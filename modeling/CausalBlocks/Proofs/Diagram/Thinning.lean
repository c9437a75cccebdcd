import CausalBlocks.Proofs.Diagram.Flattened
import CausalBlocks.Proofs.Failing

/-!
# Thinned diagrams

Flattening can fail while links go around a port, and leaves them half done then. But a composite
is taken out of the tree of blocks as a whole or not at all, so what is left keeps its path, and is
in the nearest of its composites that is left.
-/

namespace CausalBlocks

variable {α : Type}

namespace Diagram

variable {start d d' : Diagram α} {inner outer x y up : BlockId}

/-- A diagram some of whose composites have been taken apart. What is left has its path, and is in
the nearest of its composites that is left. -/
structure Thinned (start d : Diagram α) : Prop where
  top : compositeAt d.place? ⟨0⟩ = true ∧ parentAt d.place? ⟨0⟩ = none
  tree : Nested (· = ⟨0⟩) d.place?
  name : nameAt d.place? ⟨0⟩ = nameAt start.place? ⟨0⟩
  traced : start.Traced d
  nearest : ∀ x y up, parentAt d.place? x = some up → (d.place? y).isSome → y ≠ x →
    start.route y <+: start.route x → start.route y <+: start.route up

namespace Thinned

theorem rooted (h : start.Thinned d) : d.Rooted := ⟨h.top.2, h.tree⟩

/-- The composite that a block is in is the nearest to it. -/
theorem refl (h : d.WellFormed) : d.Thinned d where
  top := h.top
  tree := h.tree
  name := rfl
  traced := ⟨.refl d, fun _ _ _ => rfl⟩
  nearest x y up hup hy hne hroute := by
    obtain ⟨name, hname, _⟩ := h.rooted.exists_name hup
    rw [h.rooted.route_eq hup hname, List.prefix_concat_iff] at hroute
    refine hroute.resolve_left fun heq => hne ?_
    exact h.rooted.route_injective hy (isSome_of_parentAt hup)
      (heq.trans (h.rooted.route_eq hup hname).symm)

/-- Links do not matter. -/
theorem same (h : start.Thinned d) (hdescended : start.Descended d')
    (hplace : d'.place? = d.place?) : start.Thinned d' where
  top := by rw [hplace]; exact h.top
  tree := by rw [hplace]; exact h.tree
  name := by rw [hplace]; exact h.name
  traced := h.traced.same h.rooted hdescended hplace
  nearest := by rw [hplace]; exact h.nearest

/-- One more composite has been taken apart: what was in it is in the one around it. -/
theorem lift (h : start.Thinned d) (hup : parentAt d.place? inner = some outer)
    (htop : compositeAt d'.place? ⟨0⟩ = true ∧ parentAt d'.place? ⟨0⟩ = none)
    (htree : Nested (· = ⟨0⟩) d'.place?) (hname : nameAt d'.place? ⟨0⟩ = nameAt d.place? ⟨0⟩)
    (htraced : start.Traced d')
    (hlive : ∀ x, (d'.place? x).isSome → (d.place? x).isSome ∧ x ≠ inner)
    (hlifted : Lifted inner outer d d') : start.Thinned d' where
  top := htop
  tree := htree
  name := hname.trans h.name
  traced := htraced
  nearest x y up hup' hy hne hroute := by
    obtain ⟨hy, hinner⟩ := hlive y hy
    rw [hlifted x] at hup'
    split at hup'
    next => cases hup'
    next =>
      split at hup'
      next hmoved =>
        cases hup'
        exact h.nearest inner y outer hup hy hinner (h.nearest x y inner hmoved hy hne hroute)
      next => exact h.nearest x y up hup' hy hne hroute

/-- Of two blocks in one composite, neither was inside the other. -/
theorem apart (h : start.Thinned d) (hx : parentAt d.place? x = some up)
    (hy : parentAt d.place? y = some up) (hroute : start.route y <+: start.route x)
    (hlonger : ∀ z, parentAt d.place? z = some up →
      (start.route up).length < (start.route z).length) : y = x := by
  by_contra hne
  have hshort := (h.nearest x y up hx (isSome_of_parentAt hy) hne hroute).length_le
  exact absurd (hlonger y hy) (Nat.not_lt.mpr hshort)

end Thinned

end Diagram

namespace Edit

variable {e : Editor α} {start : Diagram α} {place : BlockId → Option Place} {keep : List String}
  {inner outer id : BlockId}

/-! ### Going around ports moves no block -/

theorem modifyPort_placed {port : PortId} {f : Port α → Port α} (hf : ∀ p, (f p).name = p.name) :
    Keeps (fun d => d.place? = place) (Edit.modifyPort port f) := by
  intro e h
  rw [modifyPort_apply]
  split
  · exact (Diagram.place?_modifyPort hf).trans h
  · exact h

theorem disconnectPorts_placed (source target : PortId) :
    Keeps (fun d : Diagram α => d.place? = place) (disconnectPorts source target) := by
  refine .of_ok (fun d => disconnectPorts_atomic d source target) fun e _ e' h hok => ?_
  obtain ⟨_, _, hdiagram⟩ := disconnectPorts_ok hok
  rw [hdiagram]
  exact Diagram.place?_unlinked.trans h

theorem link_placed (source target : PortId) :
    Keeps (fun d : Diagram α => d.place? = place) (link source target) :=
  .bind (modifyPort_placed fun _ => rfl) fun _ => modifyPort_placed fun _ => rfl

theorem bypass_placed (port : PortId) :
    Keeps (fun d : Diagram α => d.place? = place) (bypass port) := by
  refine .bind (.of_quiet .diagram) fun d => .bind (.of_quiet (.lift _)) fun p => ?_
  cases p.incoming with
  | none =>
      exact .forM (fun target => .bind (disconnectPorts_placed port target) fun _ =>
        .of_quiet (.pure _)) _
  | some source =>
      refine .bind (disconnectPorts_placed source port) fun _ => .forM (fun target => ?_) _
      exact .bind (disconnectPorts_placed port target) fun _ => link_placed source target

/-! ### Taking composites apart -/

/-- While the children of a composite move up: what is left has its path, and nothing but the
children gets another name. -/
structure Moving (start base : Diagram α) (outer inner : BlockId) (above : String)
    (rest : List BlockId) (d : Diagram α) : Prop where
  emptying : Emptying base.place? outer inner rest d.place?
  traced : start.Traced d
  above : nameAt d.place? inner = some above
  top : nameAt d.place? ⟨0⟩ = nameAt base.place? ⟨0⟩
  live : ∀ x, (d.place? x).isSome → (base.place? x).isSome

namespace Moving

variable {base : Diagram α} {above : String} {rest : List BlockId} {child : BlockId}

theorem next (h : Moving start base outer inner above (child :: rest) e.diagram)
    (hstart : start.Rooted) (hplain : start.PlainNames) :
    ∃ e', moveUp outer above child e = .ok () e' ∧
      Moving start base outer inner above rest e'.diagram := by
  have hmem : child ∈ childrenAt e.diagram.place? inner := by
    rw [h.emptying.children]
    exact List.mem_cons_self
  obtain ⟨hroot, hup, _, hlt⟩ := h.emptying.tree.child inner child hmem
  have hne : inner ≠ child := by
    rintro rfl
    omega
  obtain ⟨e', hok, hdone, htraced, hnames⟩ :=
    moveUp_emptying h.emptying h.traced hstart hplain h.above
  refine ⟨e', hok, hdone, htraced, (hnames inner hne).trans h.above,
    (hnames ⟨0⟩ (Ne.symm hroot)).trans h.top, fun x hx => ?_⟩
  by_cases hx' : x = child
  · exact h.live x (hx' ▸ isSome_of_parentAt hup)
  · refine h.live x ?_
    have hname := congrArg Option.isSome (hnames x hx')
    rw [nameAt, nameAt, Option.isSome_map, Option.isSome_map] at hname
    exact hname.symm.trans hx

/-- The composite, left without children, goes away. -/
theorem remove (h : Moving start base outer inner above [] e.diagram)
    (hbase : start.Thinned base) (hup : parentAt base.place? inner = some outer) :
    ∃ e', remove inner e = .ok () e' ∧ start.Thinned e'.diagram ∧
      Diagram.Lifted inner outer base e'.diagram := by
  obtain ⟨e', name, hremove, hname, hplace, htraced⟩ := remove_emptying h.emptying h.traced
  obtain ⟨htop, htree, hlifted⟩ := h.emptying.remove hname
  have hroot := (h.emptying.tree.child outer inner h.emptying.listed).1
  rw [← hplace] at htop htree hlifted
  refine ⟨e', hremove, hbase.lift hup htop htree ?_ htraced (fun x hx => ?_) hlifted, hlifted⟩
  · rw [hplace, nameAt_removed, if_neg (Ne.symm hroot)]
    exact h.top
  · rw [hplace, removed] at hx
    split at hx
    next => cases hx
    next hne => exact ⟨h.live x (by rwa [changed_isSome] at hx), hne⟩

end Moving

/-- A composite is taken apart, or no block moves at all. -/
theorem dissolve_ends (h : start.Thinned e.diagram) (hstart : start.Rooted)
    (hplain : start.PlainNames) (hlisted : inner ∈ childrenAt e.diagram.place? outer) :
    (dissolve outer inner e).Ends
      (fun e' => start.Thinned e'.diagram ∧ Diagram.Lifted inner outer e.diagram e'.diagram)
      (fun e' => start.Thinned e'.diagram ∧ e'.diagram.place? = e.diagram.place?) := by
  have hup := (h.tree.child outer inner hlisted).2.1
  obtain ⟨b, hb, _, habove⟩ := exists_block_of_parentAt hup
  rw [dissolve_apply hb]
  -- going around ports may fail, but moves no block; after it nothing fails
  have hbypass : Keeps (fun d : Diagram α => start.Descended d ∧ d.place? = e.diagram.place?)
      (((List.range b.inputs.length).map (PortId.input inner) ++
        (List.range b.outputs.length).map (PortId.output inner)).forM bypass) :=
    .forM (fun port e₁ h₁ => ⟨(Block.sameWork_enduring start).keptByFlattening.bypass port e₁ h₁.1,
      bypass_placed port e₁ h₁.2⟩) _
  have hbypassed := hbypass e ⟨h.traced.descended, rfl⟩
  refine EStateM.Ends.bind (P := fun e₁ => start.Thinned e₁.diagram ∧
    e₁.diagram.place? = e.diagram.place?) ?_ fun _ e₁ _ h₁ => ?_
  · exact EStateM.Ends.of_state ⟨h.same hbypassed.1 hbypassed.2, hbypassed.2⟩
  obtain ⟨h₁, hplace₁⟩ := h₁
  have hstart₁ : Emptying e.diagram.place? outer inner b.children e₁.diagram.place? := by
    rw [hplace₁, ← Diagram.childrenAt_eq hb]
    exact .begin h.top h.tree hlisted
  obtain ⟨e₂, hmove, h₂⟩ := EStateM.forM_total
    (P := fun rest e₂ => Moving start e.diagram outer inner b.name rest e₂.diagram)
    (f := moveUp outer b.name)
    (fun child rest e₂ h₂ => h₂.next hstart hplain)
    ⟨hstart₁, h₁.traced, by rw [hplace₁]; exact habove, by rw [hplace₁],
      by rw [hplace₁]; exact fun _ hx => hx⟩
  obtain ⟨e', hremove, h', hlifted⟩ := h₂.remove h hup
  rw [EStateM.bind_of_ok hmove, hremove]
  exact ⟨h', hlifted⟩

/-- What flattening a composite leaves, whether it succeeds or fails: what is listed above the
composite stays where it was. -/
structure Thins (start base : Diagram α) (id : BlockId) (d : Diagram α) : Prop where
  thinned : start.Thinned d
  frame : ∀ x up, up.index < id.index →
    (parentAt d.place? x = some up ↔ parentAt base.place? x = some up)

/-- An action that starts with a look at a block. -/
theorem ends_of_block {P Q : Editor α → Prop} {β : Type} {f : Diagram α → Block α → Edit α β}
    (hmissing : Q e) (hf : ∀ b, e.diagram.block? id = some b → (f e.diagram b e).Ends P Q) :
    ((do
      let d ← diagram
      let b ← d.block id
      f d b) e).Ends P Q := by
  have hread : diagram e = .ok e.diagram e := rfl
  rw [EStateM.bind_of_ok hread]
  cases hb : e.diagram.block id with
  | error failure => exact hmissing
  | ok b => exact hf b (Diagram.block_eq_ok.mp hb)

/-- A child is taken apart after everything inside it, or things stop on the way. -/
theorem inlineChild_ends {base : Diagram α} {child : BlockId} {rest : List BlockId} {depth : Nat}
    (h : start.Thinned e.diagram) (hstart : start.Rooted) (hplain : start.PlainNames)
    (hvisiting : Visiting base.place? id (child :: rest) e.diagram.place?)
    (hinside : (flattenTo keep depth child e).Ends (fun e' => Thins start e.diagram child e'.diagram)
      fun e' => Thins start e.diagram child e'.diagram) :
    ((do flattenTo keep depth child; dissolve id child : Edit α Unit) e).Ends
      (fun e' => start.Thinned e'.diagram ∧ Visiting base.place? id rest e'.diagram.place?)
      fun e' => Thins start base id e'.diagram := by
  obtain ⟨hroot, hlt⟩ := h.rooted.up_lt (hvisiting.parents child List.mem_cons_self)
  refine EStateM.Ends.bind (P := fun e₁ => Thins start e.diagram child e₁.diagram)
    (EStateM.Ends.imp hinside (fun _ h₁ => h₁) fun _ h₁ =>
      ⟨h₁.thinned, (hvisiting.within hlt h₁.frame).frame⟩) fun _ e₁ _ h₁ => ?_
  have hvisiting₁ := hvisiting.within hlt h₁.frame
  have hlisted := h₁.thinned.tree.mem_of_parentAt hroot
    (hvisiting₁.parents child List.mem_cons_self)
  refine EStateM.Ends.imp (dissolve_ends h₁.thinned hstart hplain hlisted) (fun e₂ h₂ => ?_)
    fun e₂ h₂ => ?_
  · exact ⟨h₂.1, hvisiting₁.next hlt h₂.2⟩
  · refine ⟨h₂.1, ?_⟩
    rw [h₂.2]
    exact hvisiting₁.frame

/-- Flattening takes composites apart one by one. -/
theorem flattenTo_ends (h : start.Thinned e.diagram) (hstart : start.Rooted)
    (hplain : start.PlainNames) (depth : Nat) :
    (flattenTo keep depth id e).Ends (fun e' => Thins start e.diagram id e'.diagram)
      fun e' => Thins start e.diagram id e'.diagram := by
  -- on the depth; the children are handled by the loop, each with the induction hypothesis
  induction depth generalizing id e with
  | zero => exact ⟨h, fun _ _ _ => .rfl⟩
  | succ depth ih =>
      have hbegin : Thins start e.diagram id e.diagram := ⟨h, fun _ _ _ => .rfl⟩
      refine ends_of_block hbegin fun b hb => ?_
      split
      · refine EStateM.Ends.imp (EStateM.Ends.forM (P := fun rest (e₁ : Editor α) =>
          start.Thinned e₁.diagram ∧ Visiting e.diagram.place? id rest e₁.diagram.place?)
          (fun child rest e₁ hstep => ?_) ?_) (fun e' h' => ⟨h'.1, h'.2.frame⟩) fun _ h' => h'
        · obtain ⟨h₁, hvisiting⟩ := hstep
          refine ends_of_block ⟨h₁, hvisiting.frame⟩ fun inner _ => ?_
          split
          · exact inlineChild_ends h₁ hstart hplain hvisiting (ih h₁)
          · exact ⟨h₁, hvisiting.skip⟩
        · rw [← Diagram.childrenAt_eq hb]
          exact ⟨h, .begin h.tree id⟩
      · exact hbegin

/-- Flattening any block, whether it succeeds or fails, keeps the paths of what is left. -/
theorem flatten_thinned (h : start.Thinned e.diagram) (hstart : start.Rooted)
    (hplain : start.PlainNames) (id : BlockId) (keep : List String) :
    start.Thinned (flatten id keep e).state.diagram :=
  (EStateM.Ends.state (flattenTo_ends h hstart hplain e.diagram.blocks.size)).thinned

end Edit

namespace Diagram

/-- What flattening several blocks leaves, one after the other, whether it succeeds or fails. -/
def flattenAll [Scalar α] (e : Editor α) (flattens : List (BlockId × List String)) : Editor α :=
  performAll e (flattens.map fun (id, keep) => .flatten id keep)

theorem Thinned.flattenAll [Scalar α] {start : Diagram α} {e : Editor α}
    (h : start.Thinned e.diagram) (hstart : start.Rooted) (hplain : start.PlainNames)
    (flattens : List (BlockId × List String)) :
    start.Thinned (flattenAll e flattens).diagram := by
  induction flattens generalizing e with
  | nil => exact h
  | cons f rest ih => exact ih (Edit.flatten_thinned h hstart hplain f.1 f.2)

end Diagram

end CausalBlocks
