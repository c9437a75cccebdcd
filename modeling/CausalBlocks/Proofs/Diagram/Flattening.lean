import CausalBlocks.Proofs.Diagram.Descendants
import CausalBlocks.Proofs.Diagram.Growth

/-!
# Taking composites apart

Links go around the ports of a composite one port after the other, while its own
level and the one around it count as the same. Then nothing is linked to it, its
children move up, and it can be removed.
-/

namespace CausalBlocks

variable {α : Type}

/-- A port without links. -/
def Diagram.Isolated (d : Diagram α) (q : PortId) : Prop := d.incoming q = none ∧ d.outgoing q = []

theorem Diagram.Isolated.unlinked {d : Diagram α} {y source target : PortId} (h : d.Isolated y) :
    (d.unlinked source target).Isolated y := by
  simp only [Isolated, incoming_unlinked, outgoing_unlinked, h.1, h.2, List.filter_nil, ite_self,
    and_self]

/-! ### Going around a port -/

theorem Diagram.port?_isSome_unlinked {d : Diagram α} {source target q : PortId} :
    ((d.unlinked source target).port? q).isSome = (d.port? q).isSome := by
  rw [unlinked, port?_isSome_modifyPort, port?_isSome_modifyPort]

theorem Diagram.port?_isSome_linked {d : Diagram α} {source target q : PortId} :
    ((d.linked source target).port? q).isSome = (d.port? q).isSome := by
  rw [linked, port?_isSome_modifyPort, port?_isSome_modifyPort]

/-- While links go around a port, it is not driven and drives only the targets
that are still to be handled; the ports of `quiet` have no links. -/
structure Bypassing (merge : BlockId → BlockId) (place : BlockId → Option Place) (port : PortId)
    (quiet : PortId → Prop) (targets : List PortId) (d : Diagram α) : Prop where
  same : d.place? = place
  wired : Wired merge place d.incoming d.outgoing
  incoming : d.incoming port = none
  outgoing : d.outgoing port = targets
  quiet : ∀ y, quiet y → d.Isolated y

namespace Bypassing

variable {merge : BlockId → BlockId} {place : BlockId → Option Place} {port source target : PortId}
  {quiet : PortId → Prop} {rest : List PortId} {d : Diagram α}

/-- A port that nothing drives can be gone around at once. -/
theorem undriven (hw : Wired merge d.place? d.incoming d.outgoing) (h : d.incoming port = none) :
    Bypassing merge d.place? port d.Isolated (d.outgoing port) d :=
  ⟨rfl, hw, h, rfl, fun _ hy => hy⟩

/-- A port is first cut off from its source. -/
theorem cut (hw : Wired merge d.place? d.incoming d.outgoing) (h : d.incoming port = some source)
    (hne : port ≠ source) :
    Bypassing merge d.place? port d.Isolated (d.outgoing port) (d.unlinked source port) where
  same := Diagram.place?_unlinked
  wired := by
    rw [Diagram.incoming_unlinked, Diagram.outgoing_unlinked]
    exact hw.unlink h
  incoming := by
    simp only [Diagram.incoming_unlinked, if_true]
  outgoing := by
    simp only [Diagram.outgoing_unlinked, if_neg hne]
  quiet _ hy := hy.unlinked

theorem incoming_target (h : Bypassing merge place port quiet (target :: rest) d) :
    d.incoming target = some port := by
  refine (h.wired.mirror port target).mpr ?_
  rw [h.outgoing]
  exact List.mem_cons_self

theorem unlink (h : Bypassing merge place port quiet (target :: rest) d) :
    Bypassing merge place port quiet rest (d.unlinked port target) where
  same := Diagram.place?_unlinked.trans h.same
  wired := by
    rw [Diagram.incoming_unlinked, Diagram.outgoing_unlinked]
    exact h.wired.unlink h.incoming_target
  incoming := by
    simp only [Diagram.incoming_unlinked, h.incoming, ite_self]
  outgoing := by
    simp only [Diagram.outgoing_unlinked, if_true, h.outgoing]
    have hnodup := h.wired.nodup port
    rw [h.outgoing, List.nodup_cons] at hnodup
    rw [List.filter_cons_of_neg (by simp), List.filter_eq_self]
    intro x hx
    have hne : x ≠ target := fun heq => hnodup.1 (heq ▸ hx)
    simpa using hne
  quiet := by
    intro y hy
    exact (h.quiet y hy).unlinked

/-- The new link runs from the port's source to one of its targets. -/
theorem link (h : Bypassing merge place port quiet rest d) (hfree : d.incoming target = none)
    (hsource : (d.port? source).isSome) (htarget : (d.port? target).isSome) {l l' : BlockId}
    (hl : levelAt place .input source = some l) (hl' : levelAt place .output target = some l')
    (hmerge : merge l = merge l') (hne : port ≠ source) (hne' : port ≠ target)
    (hquiet : ¬quiet source) (hquiet' : ¬quiet target) :
    Bypassing merge place port quiet rest (d.linked source target) where
  same := Diagram.place?_linked.trans h.same
  wired := by
    rw [Diagram.incoming_linked htarget, Diagram.outgoing_linked hsource]
    exact h.wired.link hfree hl hl' hmerge
  incoming := by
    simp only [Diagram.incoming_linked htarget, if_neg hne', h.incoming]
  outgoing := by
    simp only [Diagram.outgoing_linked hsource, if_neg hne, h.outgoing]
  quiet := by
    intro y hy
    obtain ⟨hin, hout⟩ := h.quiet y hy
    have hys : y ≠ source := fun heq => hquiet (heq ▸ hy)
    have hyt : y ≠ target := fun heq => hquiet' (heq ▸ hy)
    simp only [Diagram.Isolated, Diagram.incoming_linked htarget, Diagram.outgoing_linked hsource,
      if_neg hys, if_neg hyt, hin, hout, and_self]

/-- One target is driven by the port's source instead. -/
theorem relink (h : Bypassing merge place port quiet (target :: rest) d)
    (hsource : (d.port? source).isSome) {l : BlockId} (hl : levelAt place .input source = some l)
    (hne : port ≠ source) (hmerge : ∀ l', levelAt place .input port = some l' → merge l = merge l')
    (hquiet : ¬quiet source) :
    Bypassing merge place port quiet rest ((d.unlinked port target).linked source target) := by
  have htarget := h.incoming_target
  obtain ⟨m, l', hm, hl', hlevel⟩ := h.wired.level port target htarget
  obtain ⟨_, htarget', _⟩ := Diagram.port?_of_incoming htarget
  -- the target is free once unlinked, and neither the port nor a quiet one
  refine h.unlink.link ?_ ?_ ?_ hl hl' ((hmerge m hm).trans hlevel) hne ?_ hquiet ?_
  · simp only [Diagram.incoming_unlinked, if_true]
  · rwa [Diagram.port?_isSome_unlinked]
  · rw [Diagram.port?_isSome_unlinked, htarget']
    rfl
  · rintro rfl
    rw [h.incoming] at htarget
    cases htarget
  · intro hquiet
    rw [(h.quiet target hquiet).1] at htarget
    cases htarget

end Bypassing

namespace Edit

variable {e e' : Editor α} {port source : PortId} {merge : BlockId → BlockId}
  {place : BlockId → Option Place} {quiet : PortId → Prop} {targets : List PortId}

/-- Nothing drives the port: its links just go away. -/
theorem unlinkAll_ok (h : Bypassing merge place port quiet targets e.diagram)
    (hok : (targets.forM fun target => do disconnectPorts port target; pure () : Edit α Unit) e =
      .ok () e') :
    Bypassing merge place port quiet [] e'.diagram := by
  refine EStateM.forM_ok (P := fun rest e => Bypassing merge place port quiet rest e.diagram)
    (fun target rest e₁ e₂ h hstep => ?_) h hok
  obtain ⟨_, _, hunlink, hpure⟩ := EStateM.bind_eq_ok.mp hstep
  obtain ⟨_, _, hdiagram⟩ := disconnectPorts_ok hunlink
  cases hpure
  rw [hdiagram]
  exact h.unlink

/-- A source drives the port: it drives the targets instead. -/
theorem relinkAll_ok (h : Bypassing merge place port quiet targets e.diagram)
    {l : BlockId} (hl : levelAt place .input source = some l) (hne : port ≠ source)
    (hmerge : ∀ l', levelAt place .input port = some l' → merge l = merge l')
    (hquiet : ¬quiet source)
    (hok : (targets.forM fun target => do
      disconnectPorts port target
      link source target : Edit α Unit) e = .ok () e') :
    Bypassing merge place port quiet [] e'.diagram := by
  refine EStateM.forM_ok (P := fun rest e => Bypassing merge place port quiet rest e.diagram)
    (fun target rest e₁ e₂ h hstep => ?_) h hok
  obtain ⟨_, e₃, hunlink, hlink⟩ := EStateM.bind_eq_ok.mp hstep
  obtain ⟨_, _, hunlinked⟩ := disconnectPorts_ok hunlink
  obtain ⟨hsource, _, hlinked⟩ := link_ok hlink
  rw [hunlinked, Diagram.port?_isSome_unlinked] at hsource
  rw [hlinked, hunlinked]
  exact h.relink hsource hl hne hmerge hquiet

/-- The work stops at a port that drives itself: the first thing done is to undo
that link, and then it is not there to be replaced. -/
theorem notMem_of_relinkAll (hin : e.diagram.incoming port = none)
    (hok : (targets.forM fun target => do
      disconnectPorts port target
      link source target : Edit α Unit) e = .ok () e') : port ∉ targets := by
  have hrest := EStateM.forM_ok (P := fun rest e =>
    e.diagram.incoming port = none ∧ (port ∈ targets → port ∈ rest))
    (fun target rest e₁ e₂ h hstep => ?_) ⟨hin, id⟩ hok
  · exact fun hmem => List.not_mem_nil (hrest.2 hmem)
  · obtain ⟨_, e₃, hunlink, hlink⟩ := EStateM.bind_eq_ok.mp hstep
    obtain ⟨_, htarget, hunlinked⟩ := disconnectPorts_ok hunlink
    obtain ⟨_, htarget', hlinked⟩ := link_ok hlink
    have hne : port ≠ target := by
      rintro rfl
      rw [h.1] at htarget
      cases htarget
    refine ⟨?_, fun hmem => List.mem_of_ne_of_mem hne (h.2 hmem)⟩
    rw [hlinked, Diagram.incoming_linked htarget']
    simp only [if_neg hne, hunlinked, Diagram.incoming_unlinked, h.1]

/-- The source of a port is at the level of its targets, and it has a link. -/
theorem level_source {d : Diagram α} (hw : Wired merge d.place? d.incoming d.outgoing)
    (h : d.incoming port = some source) {level : BlockId} (hlevel : ∀ inner l,
      levelAt d.place? inner port = some l → merge l = merge level) :
    ¬d.Isolated source ∧ ∃ l, levelAt d.place? .input source = some l ∧
      ∀ l', levelAt d.place? .input port = some l' → merge l = merge l' := by
  refine ⟨fun hquiet => ?_, ?_⟩
  · have hmem := (hw.mirror source port).mp h
    rw [hquiet.2] at hmem
    cases hmem
  · obtain ⟨l, l', hl, hl', hmerge⟩ := hw.level source port h
    refine ⟨l, hl, fun m hm => ?_⟩
    rw [hmerge, hlevel .output l' hl', hlevel .input m hm]

theorem bypass_ok (hw : Wired merge e.diagram.place? e.diagram.incoming e.diagram.outgoing)
    {level : BlockId} (hlevel : ∀ inner l, levelAt e.diagram.place? inner port = some l →
      merge l = merge level) (h : bypass port e = .ok () e') :
    Bypassing merge e.diagram.place? port e.diagram.Isolated [] e'.diagram := by
  simp only [bypass, EStateM.bind_eq_ok, diagram_eq_ok, EStateM.lift_eq_ok] at h
  obtain ⟨_, _, ⟨rfl, rfl⟩, p, e, ⟨hport, rfl⟩, h⟩ := h
  have hp := Diagram.port_eq_ok.mp hport
  cases hincoming : p.incoming with
  | none =>
      rw [hincoming] at h
      have hstart := Bypassing.undriven hw ((Diagram.incoming_eq hp).trans hincoming)
      rw [Diagram.outgoing_eq hp] at hstart
      exact unlinkAll_ok hstart h
  | some source =>
      rw [hincoming] at h
      obtain ⟨_, e₁, hunlink, h⟩ := EStateM.bind_eq_ok.mp h
      obtain ⟨_, hlinked, hdiagram⟩ := disconnectPorts_ok hunlink
      have hin : e₁.diagram.incoming port = none := by
        simp only [hdiagram, Diagram.incoming_unlinked, if_true]
      -- that the loop went through shows that the port did not drive itself
      have hnotMem := notMem_of_relinkAll hin h
      have hne : port ≠ source := by
        rintro rfl
        have hmem := (hw.mirror port port).mp hlinked
        rw [Diagram.outgoing_eq hp] at hmem
        exact hnotMem hmem
      obtain ⟨hquiet, l, hl, hmerge⟩ := level_source hw hlinked hlevel
      have hstart := Bypassing.cut hw hlinked hne
      rw [Diagram.outgoing_eq hp, ← hdiagram] at hstart
      exact relinkAll_ok hstart hl hne hmerge hquiet h

/-- Going around several ports of one composite. -/
theorem bypassAll_ok {ports : List PortId} {level : BlockId}
    (hw : Wired merge e.diagram.place? e.diagram.incoming e.diagram.outgoing)
    (hlevel : ∀ port ∈ ports, ∀ inner l, levelAt e.diagram.place? inner port = some l →
      merge l = merge level) (h : ports.forM bypass e = .ok () e') :
    e'.diagram.place? = e.diagram.place? ∧
      Wired merge e.diagram.place? e'.diagram.incoming e'.diagram.outgoing ∧
      ∀ y, y ∈ ports ∨ e.diagram.Isolated y → e'.diagram.Isolated y := by
  -- ports still to come may have links; those behind have none any more
  have hrest := EStateM.forM_ok (P := fun rest e₁ => e₁.diagram.place? = e.diagram.place? ∧
    Wired merge e.diagram.place? e₁.diagram.incoming e₁.diagram.outgoing ∧
    (∀ port ∈ rest, port ∈ ports) ∧
    ∀ y, y ∈ ports ∨ e.diagram.Isolated y → y ∈ rest ∨ e₁.diagram.Isolated y)
    (fun port rest e₁ e₂ h hstep => ?_) ⟨rfl, hw, fun _ h => h, fun _ h => h⟩ h
  · obtain ⟨hplace, hw, _, hall⟩ := hrest
    exact ⟨hplace, hw, fun y hy => (hall y hy).resolve_left List.not_mem_nil⟩
  · obtain ⟨hplace, hw, hports, hall⟩ := h
    rw [← hplace] at hw hlevel
    have hdone := bypass_ok hw (hlevel port (hports port List.mem_cons_self)) hstep
    refine ⟨hdone.same.trans hplace, hplace ▸ hdone.wired,
      fun port hport => hports port (List.mem_cons_of_mem _ hport), fun y hy => ?_⟩
    rcases hall y hy with hrest | hquiet
    · rcases List.mem_cons.mp hrest with rfl | hrest
      · exact .inr ⟨hdone.incoming, hdone.outgoing⟩
      · exact .inl hrest
    · exact .inr (hdone.quiet y hquiet)

/-! ### Moving blocks -/

variable {child parent up id : BlockId} {name : String} {loose : BlockId → Prop}

theorem detach_ok (h : detach id e = .ok () e') {here : Block α}
    (hid : e.diagram.block? id = some here) (hup : here.parent = some up) :
    (e.diagram.block? up).isSome ∧ e'.diagram = e.diagram.modifyBlock up fun p =>
      { p with
        children := p.children.filter (· ≠ id)
        childIndex := p.childIndex.filter fun entry => entry.1 ≠ here.name } := by
  simp only [detach, EStateM.bind_eq_ok, diagram_eq_ok, EStateM.lift_eq_ok] at h
  obtain ⟨_, _, ⟨rfl, rfl⟩, b, e, ⟨hb, rfl⟩, h⟩ := h
  rw [Diagram.block_eq hid, Except.ok.injEq] at hb
  subst hb
  rw [hup] at h
  exact modifyBlock_ok h

/-- The view after a block has moved to another composite. -/
theorem reparent_ok (h : reparent child parent name e = .ok () e') {here : Block α}
    (hchild : e.diagram.block? child = some here) (hup : here.parent = some up) :
    e'.diagram.port? = e.diagram.port? ∧
      name ∉ (indexAt e.diagram.place? parent).map Prod.fst ∧
      name ∉ portNamesAt e.diagram.place? parent ∧
      e'.diagram.place? = relocated e.diagram.place? child up parent here.name name := by
  simp only [reparent, EStateM.bind_eq_ok, diagram_eq_ok, EStateM.lift_eq_ok, EStateM.ite_eq_ok,
    EStateM.throw_eq_ok, false_and, exists_false, and_false, false_or] at h
  obtain ⟨_, _, ⟨rfl, rfl⟩, composite, e, ⟨hparent, rfl⟩, hfree, _, e₁, hdetach, _, e₂, henter, hmove⟩ := h
  obtain ⟨_, hdetach⟩ := detach_ok hdetach hchild hup
  obtain ⟨_, henter⟩ := modifyBlock_ok henter
  obtain ⟨_, hmove⟩ := modifyBlock_ok hmove
  have hplace := Diagram.place?_eq (Diagram.block_eq_ok.mp hparent)
  rw [Block.takenNames_eq, List.mem_append, not_or] at hfree
  refine ⟨?_, ?_, ?_, ?_⟩
  · rw [hmove, henter, hdetach, Diagram.port?_modifyBlock_same, Diagram.port?_modifyBlock_same,
      Diagram.port?_modifyBlock_same] <;> exact fun _ side => by cases side <;> rfl
  · rw [indexAt, hplace]
    exact hfree.1
  · rw [portNamesAt, hplace]
    exact hfree.2
  · rw [hmove, henter, hdetach, Diagram.place?_modifyBlock (g := fun p => p.moved parent name),
      Diagram.place?_modifyBlock (g := fun p => p.enter child name),
      Diagram.place?_modifyBlock (g := fun p => p.leave child here.name)]
    · rfl
    all_goals exact fun _ => rfl

theorem block?_erased (d : Diagram α) (id x : BlockId) :
    ({ d with blocks := d.blocks.modify id.index fun _ => none } : Diagram α).block? x =
      if x = id then none else d.block? x := by
  obtain ⟨index⟩ := id
  obtain ⟨index'⟩ := x
  simp only [Diagram.block?, Array.getElem?_modify, BlockId.mk.injEq]
  by_cases heq : index' = index
  · subst heq
    cases d.blocks[index']? <;> simp
  · simp [heq, Ne.symm heq]

/-- The view after a block has been taken out of the diagram. -/
theorem remove_ok (h : remove id e = .ok () e') {here : Block α}
    (hid : e.diagram.block? id = some here) (hup : here.parent = some up) :
    (e'.diagram.port? = fun q => if q.block = id then none else e.diagram.port? q) ∧
      e'.diagram.place? = removed e.diagram.place? id up here.name := by
  obtain ⟨_, e₁, hdetach, herase⟩ := EStateM.bind_eq_ok.mp h
  obtain ⟨_, hdetach⟩ := detach_ok hdetach hid hup
  have hblock : ∀ x, e'.diagram.block? x = if x = id then none else e₁.diagram.block? x := by
    cases herase
    exact block?_erased _ _
  have hport : e₁.diagram.port? = e.diagram.port? := by
    rw [hdetach]
    exact Diagram.port?_modifyBlock_same fun _ side => by cases side <;> rfl
  have hplace : e₁.diagram.place? = changed e.diagram.place? up fun p => p.leave id here.name := by
    rw [hdetach, Diagram.place?_modifyBlock (g := fun p => p.leave id here.name) fun _ => rfl]
    rfl
  constructor
  · funext q
    rw [Diagram.port?, hblock, ← hport]
    split <;> rfl
  · funext x
    rw [Diagram.place?, hblock, removed, ← hplace]
    split <;> rfl

end Edit

/-! ### Taking a composite apart -/

/-- While the children of a composite move up: the tree is in order, and the remaining children of
the composite are the ones still to be moved. Those that have moved are in the composite around it,
and all others stay where they are. -/
structure Emptying (start : BlockId → Option Place) (outer inner : BlockId) (rest : List BlockId)
    (place : BlockId → Option Place) : Prop where
  top : compositeAt place ⟨0⟩ = true ∧ parentAt place ⟨0⟩ = none
  tree : Nested (· = ⟨0⟩) place
  children : childrenAt place inner = rest
  listed : inner ∈ childrenAt place outer
  parents : ∀ x, parentAt place x =
    if parentAt start x = some inner ∧ x ∉ rest then some outer else parentAt start x

namespace Emptying

variable {start place : BlockId → Option Place} {outer inner child : BlockId} {rest : List BlockId}
  {old name : String}

theorem begin (htop : compositeAt place ⟨0⟩ = true ∧ parentAt place ⟨0⟩ = none)
    (htree : Nested (· = ⟨0⟩) place) (hlisted : inner ∈ childrenAt place outer) :
    Emptying place outer inner (childrenAt place inner) place where
  top := htop
  tree := htree
  children := rfl
  listed := hlisted
  parents x := by
    rw [if_neg]
    rintro ⟨hx, hnot⟩
    have hne : x ≠ ⟨0⟩ := fun heq => by rw [heq, htop.2] at hx; cases hx
    exact hnot (htree.mem_of_parentAt hne hx)

/-- One child moves up, under a name that is free. -/
theorem moveUp (h : Emptying start outer inner (child :: rest) place)
    (hold : nameAt place child = some old) (hname : name ≠ "")
    (hports : name ∉ portNamesAt place outer)
    (hfree : name ∉ (indexAt place outer).map Prod.fst) :
    Emptying start outer inner rest (relocated place child inner outer old name) := by
  have hmem : child ∈ childrenAt place inner := by
    rw [h.children]
    exact List.mem_cons_self
  obtain ⟨hroot, hup, hinner, hlt⟩ := h.tree.child inner child hmem
  obtain ⟨_, _, houter, hlt'⟩ := h.tree.child outer inner h.listed
  have hlive := isSome_of_parentAt hup
  have hnotMem : child ∉ rest := by
    have hnodup := h.tree.nodup inner
    rw [h.children, List.nodup_cons] at hnodup
    exact hnodup.1
  have hne : outer ≠ inner := by
    rintro rfl
    omega
  have hparents : ∀ x, parentAt (relocated place child inner outer old name) x =
      if x = child then some outer else parentAt place x := fun _ => parentAt_relocated hlive
  have hchildren : ∀ x, childrenAt (relocated place child inner outer old name) x =
      if x = outer then childrenAt place x ++ [child] else if x = inner then
        (childrenAt place x).filter (· ≠ child) else childrenAt place x :=
    fun _ => childrenAt_relocated hlive (isSome_of_compositeAt hinner)
      (isSome_of_compositeAt houter) hne
  constructor
  case top =>
    rw [compositeAt_relocated, hparents, if_neg (Ne.symm hroot)]
    exact h.top
  case tree =>
    exact h.tree.relocate hmem hold houter (Nat.lt_trans hlt' hlt) hne hname hports hfree
  case children =>
    rw [hchildren, if_neg (Ne.symm hne), if_pos rfl, h.children,
      List.filter_cons_of_neg (by simp), List.filter_eq_self]
    intro x hx
    have hxne : x ≠ child := fun heq => hnotMem (heq ▸ hx)
    simpa using hxne
  case listed =>
    rw [hchildren, if_pos rfl]
    exact List.mem_append_left _ h.listed
  case parents =>
    have hstart : parentAt start child = some inner := by
      have hparent := h.parents child
      rwa [if_neg (by simp), hup, eq_comm] at hparent
    intro x
    rw [hparents, h.parents]
    by_cases hx : x = child
    · rw [hx, if_pos rfl, if_pos ⟨hstart, hnotMem⟩]
    · rw [if_neg hx]
      simp only [List.mem_cons, hx, false_or]

/-- The composite, left without children, goes away. -/
theorem remove (h : Emptying start outer inner [] place) (hname : nameAt place inner = some name) :
    (compositeAt (removed place inner outer name) ⟨0⟩ = true ∧
        parentAt (removed place inner outer name) ⟨0⟩ = none) ∧
      Nested (· = ⟨0⟩) (removed place inner outer name) ∧
        ∀ x, parentAt (removed place inner outer name) x = if x = inner then none
          else if parentAt start x = some inner then some outer else parentAt start x := by
  obtain ⟨hroot, _⟩ := h.tree.child outer inner h.listed
  refine ⟨?_, h.tree.remove h.listed hname h.children, fun x => ?_⟩
  · rw [compositeAt_removed, parentAt_removed, if_neg (Ne.symm hroot), if_neg (Ne.symm hroot)]
    exact h.top
  · rw [parentAt_removed, h.parents]
    simp only [List.not_mem_nil, not_false_eq_true, and_true]

end Emptying

/-- While the children of a composite move up: the tree and the links are in order,
the composite has no links, and its remaining children are the ones still to be
moved. Those that have moved are in the composite around it, and all others stay where
they are. -/
structure Dissolving (start : BlockId → Option Place) (outer inner : BlockId)
    (rest : List BlockId) (d : Diagram α) : Prop where
  top : compositeAt d.place? ⟨0⟩ = true ∧ parentAt d.place? ⟨0⟩ = none
  tree : Nested (· = ⟨0⟩) d.place?
  links : Wired (fun l => if l = inner then outer else l) d.place? d.incoming d.outgoing
  isolated : ∀ y : PortId, y.block = inner → d.Isolated y
  children : childrenAt d.place? inner = rest
  listed : inner ∈ childrenAt d.place? outer
  parents : ∀ x, parentAt d.place? x =
    if parentAt start x = some inner ∧ x ∉ rest then some outer else parentAt start x

theorem Dissolving.emptying {start : BlockId → Option Place} {outer inner : BlockId}
    {rest : List BlockId} {d : Diagram α} (h : Dissolving start outer inner rest d) :
    Emptying start outer inner rest d.place? :=
  ⟨h.top, h.tree, h.children, h.listed, h.parents⟩

/-- When all children have moved, nothing is left at the level of the composite. -/
theorem Dissolving.level_ne {start : BlockId → Option Place} {outer inner level : BlockId}
    {d : Diagram α} {side : Side} {r : PortId} (h : Dissolving start outer inner [] d)
    (hlevel : levelAt d.place? side r = some level) (hne : r.block ≠ inner) : level ≠ inner := by
  rintro rfl
  rw [levelAt_eq] at hlevel
  split at hlevel
  · split at hlevel
    · exact hne (Option.some.inj hlevel)
    · cases hlevel
  · have hbelow : ¬(r.block = ⟨0⟩) := by
      intro heq
      rw [heq, h.top.2] at hlevel
      cases hlevel
    have hmem := h.tree.mem_of_parentAt hbelow hlevel
    rw [h.children] at hmem
    cases hmem

namespace Edit

variable {e e' : Editor α} {start : BlockId → Option Place} {outer inner child : BlockId}
  {rest : List BlockId} {name : String}

/-- A link that was inside the composite is now around it. -/
theorem levelAt_relocated {place : BlockId → Option Place} {id up parent level : BlockId}
    {old name : String} {side : Side} {p : PortId} (hup : parentAt place id = some up)
    (hlevel : levelAt place side p = some level) :
    ∃ level', levelAt (relocated place id up parent old name) side p = some level' ∧
      (if level' = up then parent else level') = if level = up then parent else level := by
  rw [levelAt_eq] at hlevel
  rw [levelAt_eq, compositeAt_relocated, parentAt_relocated (isSome_of_parentAt hup)]
  split
  next hside =>
    rw [if_pos hside] at hlevel
    exact ⟨level, hlevel, rfl⟩
  next hside =>
    rw [if_neg hside] at hlevel
    split
    next hblock =>
      rw [hblock, hup, Option.some.injEq] at hlevel
      subst hlevel
      exact ⟨parent, rfl, by split <;> simp⟩
    next => exact ⟨level, hlevel, rfl⟩

/-- A block with a parent, as the diagram has it. -/
theorem exists_block_of_parentAt {d : Diagram α} {id up : BlockId}
    (h : parentAt d.place? id = some up) : ∃ here, d.block? id = some here ∧
      here.parent = some up ∧ nameAt d.place? id = some here.name := by
  have hlive := isSome_of_parentAt h
  rw [Diagram.place?, Option.isSome_map] at hlive
  obtain ⟨here, hhere⟩ := Option.isSome_iff_exists.mp hlive
  have hplace := Diagram.place?_eq hhere
  rw [parentAt, hplace] at h
  refine ⟨here, hhere, h, ?_⟩
  rw [nameAt, hplace]
  rfl

/-- One child moves up. -/
theorem reparent_dissolving (h : Dissolving start outer inner (child :: rest) e.diagram)
    (hname : name ≠ "") (hok : reparent child outer name e = .ok () e') :
    Dissolving start outer inner rest e'.diagram := by
  have hmem : child ∈ childrenAt e.diagram.place? inner := by
    rw [h.children]
    exact List.mem_cons_self
  have hup := (h.tree.child inner child hmem).2.1
  obtain ⟨here, hhere, hparent, hold⟩ := exists_block_of_parentAt hup
  obtain ⟨hport, hfree, hports, hplace⟩ := reparent_ok hok hhere hparent
  obtain ⟨htop, htree, hchildren, hlisted, hparents⟩ :=
    h.emptying.moveUp hold hname hports hfree
  have hlevels : ∀ side p l, levelAt e.diagram.place? side p = some l → ∃ l',
      levelAt (relocated e.diagram.place? child inner outer here.name name) side p = some l' ∧
        (if l' = inner then outer else l') = if l = inner then outer else l :=
    fun _ _ _ => levelAt_relocated hup
  rw [← hplace] at htop htree hchildren hlisted hparents hlevels
  refine ⟨htop, htree, ?_, fun y hy => ?_, hchildren, hlisted, hparents⟩
  · rw [Diagram.incoming_congr hport, Diagram.outgoing_congr hport]
    -- with the two levels merged, no link changes its level
    refine h.links.relevel fun p q l l' _ hl hl' hmerge => ?_
    obtain ⟨m, hm, hmerge_m⟩ := hlevels _ p l hl
    obtain ⟨m', hm', hmerge_m'⟩ := hlevels _ q l' hl'
    exact ⟨m, m', hm, hm', hmerge_m.trans (hmerge.trans hmerge_m'.symm)⟩
  · rw [Diagram.Isolated, Diagram.incoming_congr hport, Diagram.outgoing_congr hport]
    exact h.isolated y hy

/-- The composite, left without children and links, goes away. -/
theorem remove_dissolving (h : Dissolving start outer inner [] e.diagram)
    (hok : remove inner e = .ok () e') : e'.diagram.WellFormed ∧
      (∀ x, parentAt e'.diagram.place? x =
        if x = inner then none else if parentAt start x = some inner then some outer
        else parentAt start x) ∧ e'.diagram.incoming = e.diagram.incoming := by
  obtain ⟨_, hup, _⟩ := h.tree.child outer inner h.listed
  obtain ⟨here, hhere, hparent, hname⟩ := exists_block_of_parentAt hup
  obtain ⟨hport, hplace⟩ := remove_ok hok hhere hparent
  obtain ⟨htop, htree, hparents⟩ := h.emptying.remove hname
  -- its ports had no links, so their loss is not seen
  have hincoming : e'.diagram.incoming = e.diagram.incoming := by
    funext q
    rw [Diagram.incoming, hport]
    dsimp only
    split
    next hq => exact (h.isolated q hq).1.symm
    next => rfl
  have houtgoing : e'.diagram.outgoing = e.diagram.outgoing := by
    funext q
    rw [Diagram.outgoing, hport]
    dsimp only
    split
    next hq => exact (h.isolated q hq).2.symm
    next => rfl
  -- nothing is left at the merged level, so levels agree again without merging
  have hlevel : ∀ side (r : PortId) l, levelAt e.diagram.place? side r = some l →
      r.block ≠ inner → l ≠ inner ∧ levelAt e'.diagram.place? side r = some l := by
    intro side r l hl hne
    refine ⟨h.level_ne hl hne, ?_⟩
    rw [hplace, levelAt_congr ?_ ?_, hl]
    · rw [compositeAt_removed, if_neg hne]
    · rw [parentAt_removed, if_neg hne]
  rw [← hplace] at htop htree hparents
  refine ⟨⟨htop, htree, ?_⟩, hparents, hincoming⟩
  rw [hincoming, houtgoing]
  refine h.links.relevel fun p q l l' hpq hl hl' hmerge => ?_
  have hp : p.block ≠ inner := by
    intro heq
    have := (h.links.mirror p q).mp hpq
    rw [(h.isolated p heq).2] at this
    cases this
  have hq : q.block ≠ inner := by
    intro heq
    rw [(h.isolated q heq).1] at hpq
    cases hpq
  obtain ⟨hne, hl⟩ := hlevel _ p l hl hp
  obtain ⟨hne', hl'⟩ := hlevel _ q l' hl' hq
  rw [if_neg hne, if_neg hne'] at hmerge
  exact ⟨l, l', hl, hl', hmerge⟩

/-- A port of a block is one of those that it has, or there is no link at it. -/
theorem mem_ports_or_isolated {d : Diagram α} {b : Block α} (hblock : d.block? inner = some b)
    {y : PortId} (hy : y.block = inner) :
    y ∈ (List.range b.inputs.length).map (PortId.input inner) ++
      (List.range b.outputs.length).map (PortId.output inner) ∨ d.Isolated y := by
  obtain ⟨block, side, index⟩ := y
  obtain rfl : block = inner := hy
  -- a port beyond the lists does not exist, and so has no links
  by_cases hindex : index < (b.ports side).length
  · exact .inl (by cases side <;> simpa [Block.ports] using hindex)
  · have hport : d.port? ⟨block, side, index⟩ = none := by
      rw [Diagram.port?_eq hblock]
      exact List.getElem?_eq_none (Nat.le_of_not_lt hindex)
    exact .inr ⟨by rw [Diagram.incoming, hport]; rfl, by rw [Diagram.outgoing, hport]; rfl⟩

theorem block_of_mem_ports {inputs outputs : Nat} {port : PortId}
    (h : port ∈ (List.range inputs).map (PortId.input inner) ++
      (List.range outputs).map (PortId.output inner)) : port.block = inner := by
  simp only [List.mem_append, List.mem_map] at h
  obtain ⟨_, _, rfl⟩ | ⟨_, _, rfl⟩ := h <;> rfl

theorem level_of_parentAt {place : BlockId → Option Place} {up level : BlockId} {side : Side}
    {p : PortId} (hup : parentAt place p.block = some up)
    (hlevel : levelAt place side p = some level) : level = p.block ∨ level = up := by
  rw [levelAt_eq, hup] at hlevel
  split at hlevel
  · split at hlevel
    · exact .inl (Option.some.inj hlevel).symm
    · cases hlevel
  · exact .inr (Option.some.inj hlevel).symm

/-- The links of a composite lie inside it or in the composite around it. -/
theorem merged_level {place : BlockId → Option Place} (hup : parentAt place inner = some outer)
    {port : PortId} (hport : port.block = inner) {side : Side} {level : BlockId}
    (hlevel : levelAt place side port = some level) :
    (if level = inner then outer else level) = if inner = inner then outer else inner := by
  rcases level_of_parentAt (hport ▸ hup) hlevel with heq | rfl
  · rw [heq, hport]
  · simp

/-- Once all ports of a composite have been gone around, its children can move up. -/
theorem bypassAll_dissolving (h : e.diagram.WellFormed)
    (hlisted : inner ∈ childrenAt e.diagram.place? outer) {b : Block α}
    (hblock : e.diagram.block? inner = some b)
    (hok : ((List.range b.inputs.length).map (PortId.input inner) ++
      (List.range b.outputs.length).map (PortId.output inner)).forM bypass e = .ok () e') :
    e'.diagram.place? = e.diagram.place? ∧
      Dissolving e.diagram.place? outer inner b.children e'.diagram := by
  have hup := (h.tree.child outer inner hlisted).2.1
  obtain ⟨hplace, hlinks, hisolated⟩ := bypassAll_ok (h.links.merged inner outer)
    (fun port hport side l hl => merged_level hup (block_of_mem_ports hport) hl) hok
  have hbegin : Emptying e.diagram.place? outer inner b.children e'.diagram.place? := by
    rw [hplace, ← Diagram.childrenAt_eq hblock]
    exact .begin h.top h.tree hlisted
  obtain ⟨htop, htree, hchildren, hlisted', hparents⟩ := hbegin
  rw [← hplace] at hlinks
  refine ⟨hplace, ?_⟩
  exact ⟨htop, htree, hlinks, fun y hy => hisolated y (mem_ports_or_isolated hblock hy), hchildren,
    hlisted', hparents⟩

/-- A composite is taken apart into the composite around it. -/
theorem dissolve_ok (h : e.diagram.WellFormed) (hlisted : inner ∈ childrenAt e.diagram.place? outer)
    (hok : dissolve outer inner e = .ok () e') : e'.diagram.WellFormed ∧
      ∀ x, parentAt e'.diagram.place? x =
        if x = inner then none else if parentAt e.diagram.place? x = some inner then some outer
        else parentAt e.diagram.place? x := by
  simp only [dissolve, EStateM.bind_eq_ok, diagram_eq_ok, EStateM.lift_eq_ok] at hok
  obtain ⟨_, _, ⟨rfl, rfl⟩, b, e, ⟨hb, rfl⟩, _, e₁, hbypass, _, e₂, hmove, hremove⟩ := hok
  have hstart := (bypassAll_dissolving h hlisted (Diagram.block_eq_ok.mp hb) hbypass).2
  have hmoved := EStateM.forM_ok
    (P := fun rest e₃ => Dissolving e.diagram.place? outer inner rest e₃.diagram)
    (fun child rest e₃ e₄ h hstep => ?_) hstart hmove
  · obtain ⟨hwell, hparents, _⟩ := remove_dissolving hmoved hremove
    exact ⟨hwell, hparents⟩
  · simp only [EStateM.bind_eq_ok, diagram_eq_ok, EStateM.lift_eq_ok] at hstep
    obtain ⟨_, _, ⟨rfl, rfl⟩, moved, e₃, ⟨_, rfl⟩, hstep⟩ := hstep
    exact reparent_dissolving h (by simp) hstep

/-- While the children of a composite are taken apart: those still to come are its children, and
the blocks listed above it stay where they are. -/
structure Visiting (start : BlockId → Option Place) (id : BlockId) (rest : List BlockId)
    (place : BlockId → Option Place) : Prop where
  nodup : rest.Nodup
  parents : ∀ child ∈ rest, parentAt place child = some id
  frame : ∀ x up, up.index < id.index →
    (parentAt place x = some up ↔ parentAt start x = some up)

namespace Visiting

variable {id : BlockId} {place place₁ place₂ : BlockId → Option Place}

theorem begin (h : Nested (· = ⟨0⟩) place) (id : BlockId) :
    Visiting place id (childrenAt place id) place :=
  ⟨h.nodup id, fun child hchild => (h.child id child hchild).2.1, fun _ _ _ => .rfl⟩

theorem skip (h : Visiting start id (child :: rest) place) : Visiting start id rest place :=
  ⟨h.nodup.of_cons, fun x hx => h.parents x (List.mem_cons_of_mem _ hx), h.frame⟩

/-- What happens below a child leaves its siblings where they are. -/
theorem within (h : Visiting start id rest place) (hlt : id.index < child.index)
    (hframe : ∀ x up, up.index < child.index →
      (parentAt place₁ x = some up ↔ parentAt place x = some up)) :
    Visiting start id rest place₁ where
  nodup := h.nodup
  parents x hx := (hframe x id hlt).mpr (h.parents x hx)
  frame x up hlt' := (hframe x up (Nat.lt_trans hlt' hlt)).trans (h.frame x up hlt')

/-- Taking a child apart moves nothing that is above it, and no siblings. -/
theorem next (h : Visiting start id (child :: rest) place) (hlt : id.index < child.index)
    (hparents : ∀ x, parentAt place₁ x = if x = child then none
      else if parentAt place x = some child then some id else parentAt place x) :
    Visiting start id rest place₁ := by
  have hchild := h.parents child List.mem_cons_self
  obtain ⟨hnot, hnodup⟩ := List.nodup_cons.mp h.nodup
  have hkeep : ∀ x up, up.index ≤ id.index → x ≠ child →
      parentAt place x = some up → parentAt place₁ x = some up := by
    intro x up hle hne hup
    rw [hparents, if_neg hne, if_neg, hup]
    rw [hup]
    intro heq
    cases heq
    omega
  refine ⟨hnodup, fun x hx => ?_, fun x up hlt' => ?_⟩
  · have hne : x ≠ child := fun heq => hnot (heq ▸ hx)
    exact hkeep x id (Nat.le_refl _) hne (h.parents x (List.mem_cons_of_mem _ hx))
  · rw [← h.frame x up hlt']
    constructor
    · intro hup
      rw [hparents] at hup
      split at hup
      next => cases hup
      next =>
        split at hup
        next =>
          cases hup
          omega
        next => exact hup
    · intro hup
      refine hkeep x up (Nat.le_of_lt hlt') ?_ hup
      rintro rfl
      rw [hchild] at hup
      cases hup
      omega

end Visiting

/-- While the children of a composite are flattened and taken apart: those still to come
are its children, and the blocks listed above it stay where they are. -/
structure Flattening (start : BlockId → Option Place) (id : BlockId) (rest : List BlockId)
    (d : Diagram α) : Prop where
  wellFormed : d.WellFormed
  nodup : rest.Nodup
  parents : ∀ child ∈ rest, parentAt d.place? child = some id
  frame : ∀ x up, up.index < id.index →
    (parentAt d.place? x = some up ↔ parentAt start x = some up)

theorem Flattening.skip {id : BlockId} {d : Diagram α}
    (h : Flattening start id (child :: rest) d) : Flattening start id rest d :=
  ⟨h.wellFormed, h.nodup.of_cons, fun x hx => h.parents x (List.mem_cons_of_mem _ hx), h.frame⟩

/-- A child that has been flattened is taken apart. -/
theorem Flattening.next {id : BlockId} {d : Diagram α}
    (h : Flattening start id (child :: rest) d) (hwell : e.diagram.WellFormed)
    (hframe : ∀ x up, up.index < child.index →
      (parentAt e.diagram.place? x = some up ↔ parentAt d.place? x = some up)) (hok : dissolve id child e = .ok () e') :
    Flattening start id rest e'.diagram := by
  have hchild := h.parents child List.mem_cons_self
  have hlt := (h.wellFormed.tree.child id child (h.wellFormed.listed hchild)).2.2.2
  have hvisiting : Visiting start id (child :: rest) e.diagram.place? :=
    Visiting.within ⟨h.nodup, h.parents, h.frame⟩ hlt hframe
  obtain ⟨hwell', hparents⟩ :=
    dissolve_ok hwell (hwell.listed (hvisiting.parents child List.mem_cons_self)) hok
  obtain ⟨hnodup, hparents', hframe'⟩ := hvisiting.next hlt hparents
  exact ⟨hwell', hnodup, hparents', hframe'⟩

/-- Flattening keeps a diagram well formed, and leaves alone the parents of the
blocks that are not below the composite. -/
theorem flattenTo_ok (keep : List String) (depth : Nat) {id : BlockId} (h : e.diagram.WellFormed)
    (hok : flattenTo keep depth id e = .ok () e') : e'.diagram.WellFormed ∧
      ∀ x up, up.index < id.index →
        (parentAt e'.diagram.place? x = some up ↔ parentAt e.diagram.place? x = some up) := by
  -- on the depth; the children are handled by the loop, each with the induction hypothesis
  induction depth generalizing id e e' with
  | zero =>
      cases hok
      exact ⟨h, fun x up _ => Iff.rfl⟩
  | succ depth ih =>
      simp only [flattenTo, EStateM.bind_eq_ok, diagram_eq_ok, EStateM.lift_eq_ok, EStateM.ite_eq_ok,
        EStateM.throw_eq_ok, false_and, exists_false, and_false, or_false] at hok
      obtain ⟨_, _, ⟨rfl, rfl⟩, b, e, ⟨hb, rfl⟩, _, hloop⟩ := hok
      have hchildren := Diagram.childrenAt_eq (Diagram.block_eq_ok.mp hb)
      have hstart : Flattening e.diagram.place? id b.children e.diagram := by
        rw [← hchildren]
        exact ⟨h, h.tree.nodup id, fun child hchild => (h.tree.child id child hchild).2.1,
          fun x up _ => Iff.rfl⟩
      have hdone := EStateM.forM_ok
        (P := fun rest e₁ => Flattening e.diagram.place? id rest e₁.diagram)
        (fun child rest e₁ e₂ h hstep => ?_) hstart hloop
      · exact ⟨hdone.wellFormed, hdone.frame⟩
      · simp only [EStateM.bind_eq_ok, diagram_eq_ok, EStateM.lift_eq_ok, EStateM.ite_eq_ok,
          EStateM.pure_eq_ok] at hstep
        obtain ⟨_, _, ⟨rfl, rfl⟩, inner, e₁, ⟨_, rfl⟩, ⟨_, _, e₃, hflatten, hdissolve⟩ | ⟨_, _, rfl⟩⟩ :=
          hstep
        · obtain ⟨hwell, hframe⟩ := ih h.wellFormed hflatten
          exact h.next hwell hframe hdissolve
        · exact h.skip

theorem flatten_wellFormed {id : BlockId} {keep : List String} (h : e.diagram.WellFormed)
    (hok : flatten id keep e = .ok () e') : e'.diagram.WellFormed := by
  obtain ⟨_, _, hd, hok⟩ := EStateM.bind_eq_ok.mp hok
  obtain ⟨rfl, rfl⟩ := diagram_eq_ok.mp hd
  exact (flattenTo_ok keep _ h hok).1

end Edit

end CausalBlocks
