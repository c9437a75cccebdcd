import CausalBlocks.Proofs.Diagram.Blueprint
import CausalBlocks.Proofs.Scalar.Rational

/-!
# Taking a link away again

A new link is the last that its source has, and the only one that its target has. So taking it away
leaves every port as it was before, and a diagram is its blocks and their ports. Between names it is
the new link that is taken away unless the source drives another input of the same block: a link is
made to the first input that is free, and taken away from the first that the source drives.
-/

namespace CausalBlocks

variable {α : Type}

namespace Diagram

variable {d d' d'' : Diagram α} {id parent child : BlockId} {source target p : PortId}
  {name first last : String} {output input : Option String}

/-! ### Diagrams with the same blocks -/

/-- The same diagram, but for the links and samples of its ports. -/
structure Rewired (d d' : Diagram α) : Prop where
  size : d'.blocks.size = d.blocks.size
  block : ∀ id b, d.block? id = some b → ∃ b', d'.block? id = some b' ∧ b.Rewired b'
  missing : ∀ id, d.block? id = none → d'.block? id = none

theorem rewired_modifyPort {f : Port α → Port α} (hf : ∀ p, (f p).name = p.name) :
    d.Rewired (d.modifyPort p f) where
  size := size_modifyPort f
  block _ _ hb := exists_rewired_modifyPort hf hb
  missing id hid := by
    rw [← Option.not_isSome_iff_eq_none] at hid ⊢
    rwa [modifyPort, isSome_block?_modifyBlock]

/-- Diagrams with the same blocks in the same places are equal. -/
theorem eq_of_block? (hsize : d'.blocks.size = d.blocks.size)
    (hblocks : ∀ id, d'.block? id = d.block? id) : d' = d := by
  obtain ⟨blocks⟩ := d
  obtain ⟨blocks'⟩ := d'
  refine congrArg Diagram.mk (Array.ext hsize fun i hi hi' => ?_)
  have hplace := hblocks ⟨i⟩
  rwa [block?, block?, Array.getElem?_eq_getElem hi, Array.getElem?_eq_getElem hi', Option.join_some,
    Option.join_some] at hplace

namespace Rewired

theorem trans (h : d.Rewired d') (h' : d'.Rewired d'') : d.Rewired d'' where
  size := h'.size.trans h.size
  block id b hb := by
    obtain ⟨b', hb', hsame⟩ := h.block id b hb
    obtain ⟨b'', hb'', hsame'⟩ := h'.block id b' hb'
    exact ⟨b'', hb'', hsame.trans hsame'⟩
  missing id hid := h'.missing id (h.missing id hid)

/-- Nothing but ports is left to tell the two apart. -/
theorem eq_of_ports (h : d.Rewired d') (hports : d'.port? = d.port?) : d' = d := by
  refine eq_of_block? h.size fun id => ?_
  cases hb : d.block? id with
  | none => exact h.missing id hb
  | some b =>
      obtain ⟨b', hb', hsame⟩ := h.block id b hb
      have hside : ∀ side, b'.ports side = b.ports side := by
        refine fun side => List.ext_getElem? fun index => ?_
        rw [← port?_eq (q := ⟨id, side, index⟩) hb', hports, port?_eq hb]
      have hinputs : b'.inputs = b.inputs := hside .input
      have houtputs : b'.outputs = b.outputs := hside .output
      rw [hb', hsame.rest, hinputs, houtputs]

end Rewired

/-! ### Where names lead -/

theorem childNamed_eq_ok : d.childNamed parent name = .ok child ↔
    ∃ outer, d.block? parent = some outer ∧ outer.child? name = some child := by
  simp only [childNamed, Except.bind_eq_ok, block_eq_ok]
  refine exists_congr fun outer => and_congr_right fun _ => ?_
  cases outer.child? name with
  | none => simp [throw, throwThe, MonadExceptOf.throw]
  | some entry => simp [pure, Except.pure]

theorem outputNamed_eq_ok {path : String} : d.outputNamed id path name = .ok p ↔
    ∃ b, d.block? id = some b ∧ ∃ index, b.outputIndex? name = some index ∧ .output id index = p := by
  simp only [outputNamed, Except.bind_eq_ok, block_eq_ok]
  refine exists_congr fun b => and_congr_right fun _ => ?_
  cases b.outputIndex? name with
  | none => simp [throw, throwThe, MonadExceptOf.throw]
  | some index => simp [pure, Except.pure]

theorem inputNamed_eq_ok : d.inputNamed id (some name) = .ok p ↔
    ∃ b, d.block? id = some b ∧ ∃ index, b.inputIndex? name = some index ∧ .input id index = p := by
  simp only [inputNamed, Except.bind_eq_ok, block_eq_ok]
  refine exists_congr fun b => and_congr_right fun _ => ?_
  cases b.inputIndex? name with
  | none => simp [throw, throwThe, MonadExceptOf.throw]
  | some index => simp [pure, Except.pure]

/-- The input of a child that a link goes to is one of its inputs. -/
theorem exists_of_inputNamed (h : d.inputNamed child input = .ok p) :
    ∃ b, d.block? child = some b ∧ ∃ index, index < b.inputs.length ∧ .input child index = p := by
  cases input with
  | some name =>
      obtain ⟨b, hb, index, hindex, hp⟩ := inputNamed_eq_ok.mp h
      exact ⟨b, hb, index, (List.findIdx?_eq_some_iff_getElem.mp hindex).1, hp⟩
  | none =>
      simp only [inputNamed, Except.bind_eq_ok, block_eq_ok] at h
      obtain ⟨b, hb, h⟩ := h
      split at h
      next => cases h
      next =>
        cases hfree : b.freeInput? with
        | none =>
            rw [hfree] at h
            cases h
        | some index =>
            rw [hfree] at h
            cases h
            obtain ⟨_, _, hfound⟩ := List.exists_of_findSome?_eq_some hfree
            obtain ⟨_, _, hfound⟩ := Option.bind_eq_some_iff.mp hfound
            obtain ⟨port, hport, hfound⟩ := Option.bind_eq_some_iff.mp hfound
            split at hfound
            next =>
              cases hfound
              exact ⟨b, hb, _, (List.getElem?_eq_some_iff.mp hport).1, rfl⟩
            next => cases hfound

/-- A link from a name starts at an input of the composite with the name, else at an output of the
child. -/
theorem sourceNamed_eq_ok : d.sourceNamed parent name output = .ok p ↔
    ∃ outer, d.block? parent = some outer ∧ match outer.inputIndex? name with
      | some index => .input parent index = p
      | none => ∃ child, d.childNamed parent name = .ok child ∧
        d.outputNamed child (d.pathOf child) (output.getD defaultOutput) = .ok p := by
  simp only [sourceNamed, Except.bind_eq_ok, block_eq_ok]
  refine exists_congr fun outer => and_congr_right fun _ => ?_
  cases outer.inputIndex? name with
  | none => exact Except.bind_eq_ok
  | some index => simp [pure, Except.pure]

/-- A link to a name ends at an output of the composite with the name, else at an input of the
child. -/
theorem targetNamed_eq_ok : d.targetNamed parent name input = .ok p ↔
    ∃ outer, d.block? parent = some outer ∧ match outer.outputIndex? name with
      | some index => .output parent index = p
      | none => ∃ child, d.childNamed parent name = .ok child ∧ d.inputNamed child input = .ok p := by
  simp only [targetNamed, Except.bind_eq_ok, block_eq_ok]
  refine exists_congr fun outer => and_congr_right fun _ => ?_
  cases outer.outputIndex? name with
  | none => exact Except.bind_eq_ok
  | some index => simp [pure, Except.pure]

/-- A link to the name of an output of the composite does not end at an input of a child. -/
theorem not_own_of_input {index : Nat}
    (htarget : d.targetNamed parent name input = .ok (.input child index)) :
    ¬∃ outer, d.block? parent = some outer ∧ name ∈ outer.outputs.map Port.name := by
  rintro ⟨outer, houter, hown⟩
  obtain ⟨_, houter', htarget⟩ := targetNamed_eq_ok.mp htarget
  cases houter.symm.trans houter'
  split at htarget
  next => cases htarget
  next hnone =>
    obtain ⟨port, hport, hname⟩ := List.mem_map.mp hown
    exact beq_eq_false_iff_ne.mp (List.findIdx?_eq_none_iff.mp hnone port hport) hname

/-- A link that is taken away ends where a new one would, or at the first input of the child that
the source drives. -/
theorem linkedTarget_eq_ok : d.linkedTarget parent source first last none = .ok p ↔
    ∃ outer, d.block? parent = some outer ∧ match outer.outputIndex? last with
      | some index => .output parent index = p
      | none => ∃ child, d.childNamed parent last = .ok child ∧ ∃ b, d.block? child = some b ∧
        ∃ index, b.inputs.findIdx? (fun q => q.incoming == some source) = some index ∧
          .input child index = p := by
  simp only [linkedTarget, Except.bind_eq_ok, block_eq_ok, Option.isSome_none, Bool.false_eq_true,
    if_false]
  refine exists_congr fun outer => and_congr_right fun _ => ?_
  cases outer.outputIndex? last with
  | some index => simp [pure, Except.pure]
  | none =>
      simp only [Except.bind_eq_ok, block_eq_ok]
      refine exists_congr fun child => and_congr_right fun _ => exists_congr fun b =>
        and_congr_right fun _ => ?_
      cases b.inputs.findIdx? fun q => q.incoming == some source with
      | none => simp [throw, throwThe, MonadExceptOf.throw]
      | some index => simp [pure, Except.pure]

namespace Rewired

variable (h : d.Rewired d')
include h

/-- A block still answers to the same names. -/
theorem named {b : Block α} (hb : d.block? id = some b) : ∃ b', d'.block? id = some b' ∧
    (∀ name, b'.inputIndex? name = b.inputIndex? name) ∧
      (∀ name, b'.outputIndex? name = b.outputIndex? name) ∧
        ∀ name, b'.child? name = b.child? name := by
  obtain ⟨b', hb', hsame⟩ := h.block id b hb
  refine ⟨b', hb', fun name => ?_, fun name => ?_, fun name => ?_⟩
  · rw [Block.inputIndex?_eq, hsame.inputs, Block.inputIndex?_eq]
  · rw [Block.outputIndex?_eq, hsame.outputs, Block.outputIndex?_eq]
  · rw [hsame.rest]
    rfl

theorem childNamed (hok : d.childNamed parent name = .ok child) :
    d'.childNamed parent name = .ok child := by
  obtain ⟨outer, houter, hchild⟩ := childNamed_eq_ok.mp hok
  obtain ⟨outer', houter', _, _, hchild'⟩ := h.named houter
  exact childNamed_eq_ok.mpr ⟨outer', houter', (hchild' name).trans hchild⟩

theorem sourceNamed (hok : d.sourceNamed parent name output = .ok p) :
    d'.sourceNamed parent name output = .ok p := by
  obtain ⟨outer, houter, hok⟩ := sourceNamed_eq_ok.mp hok
  obtain ⟨outer', houter', hinput, _, _⟩ := h.named houter
  refine sourceNamed_eq_ok.mpr ⟨outer', houter', ?_⟩
  rw [hinput]
  split at hok
  next => exact hok
  next =>
    obtain ⟨child, hchild, hok⟩ := hok
    obtain ⟨b, hb, index, hindex, hp⟩ := outputNamed_eq_ok.mp hok
    obtain ⟨b', hb', _, houtput, _⟩ := h.named hb
    exact ⟨child, h.childNamed hchild,
      outputNamed_eq_ok.mpr ⟨b', hb', index, (houtput _).trans hindex, hp⟩⟩

/-- A link to a named input, or to an output of the composite, ends where it did. -/
theorem targetNamed {port : String} (hok : d.targetNamed parent name (some port) = .ok p) :
    d'.targetNamed parent name (some port) = .ok p := by
  obtain ⟨outer, houter, hok⟩ := targetNamed_eq_ok.mp hok
  obtain ⟨outer', houter', _, houtput, _⟩ := h.named houter
  refine targetNamed_eq_ok.mpr ⟨outer', houter', ?_⟩
  rw [houtput]
  split at hok
  next => exact hok
  next =>
    obtain ⟨child, hchild, hok⟩ := hok
    obtain ⟨b, hb, index, hindex, hp⟩ := inputNamed_eq_ok.mp hok
    obtain ⟨b', hb', hinput, _, _⟩ := h.named hb
    exact ⟨child, h.childNamed hchild,
      inputNamed_eq_ok.mpr ⟨b', hb', index, (hinput _).trans hindex, hp⟩⟩

end Rewired

/-! ### Making a link and taking it away -/

theorem rewired_linked : d.Rewired (d.linked source target) := by
  refine .trans (rewired_modifyPort (f := fun p => { p with outgoing := p.outgoing ++ [target] }) ?_)
    (rewired_modifyPort ?_) <;> exact fun _ => rfl

theorem rewired_unlinked : d.Rewired (d.unlinked source target) := by
  refine .trans (rewired_modifyPort
    (f := fun p => { p with outgoing := p.outgoing.filter (· ≠ target) }) ?_)
    (rewired_modifyPort ?_) <;> exact fun _ => rfl

/-- A link that was not there before leaves nothing behind, not even in the order of the links. -/
theorem unlinked_linked (htarget : d.incoming target = none)
    (hsource : target ∉ d.outgoing source) :
    (d.linked source target).unlinked source target = d := by
  refine (rewired_linked.trans rewired_unlinked).eq_of_ports (funext fun q => ?_)
  have hincoming : ∀ port, d.port? target = some port → port.incoming = none := fun port hport =>
    (incoming_eq hport).symm.trans htarget
  have houtgoing : ∀ port, d.port? source = some port →
      (port.outgoing ++ [target]).filter (· ≠ target) = port.outgoing := by
    intro port hport
    rw [outgoing_eq hport] at hsource
    have hkept : port.outgoing.filter (· ≠ target) = port.outgoing :=
      List.filter_eq_self.mpr fun x hx => decide_eq_true (ne_of_mem_of_not_mem hx hsource)
    rw [List.filter_append, hkept]
    simp
  simp only [linked, unlinked, port?_modifyPort]
  cases hq : d.port? q with
  | none => simp
  | some port =>
      by_cases hs : q = source
      · have hsame := houtgoing port (hs ▸ hq)
        by_cases ht : q = target
        · have hnone := hincoming port (ht ▸ hq)
          simp only [if_pos hs, if_pos ht, Option.map_some, hsame, ← hnone]
        · simp only [if_pos hs, if_neg ht, Option.map_some, hsame]
      · by_cases ht : q = target
        · have hnone := hincoming port (ht ▸ hq)
          simp only [if_neg hs, if_pos ht, Option.map_some, ← hnone]
        · simp only [if_neg hs, if_neg ht]

/-- The first input of a block that a port drives. -/
theorem findIdx?_driven {b : Block α} (hb : d.block? child = some b) {index : Nat} :
    b.inputs.findIdx? (fun q => q.incoming == some source) = some index ↔
      d.incoming (.input child index) = some source ∧
        ∀ before < index, d.incoming (.input child before) ≠ some source := by
  have hincoming : ∀ i, d.incoming (.input child i) = b.inputs[i]?.bind Port.incoming := fun i => by
    rw [incoming, port?_eq (q := .input child i) hb]
    rfl
  simp only [hincoming, List.findIdx?_eq_some_iff_getElem, beq_iff_eq, ne_eq]
  constructor
  · rintro ⟨hindex, hdriven, hbefore⟩
    rw [List.getElem?_eq_getElem hindex]
    refine ⟨hdriven, fun before hlt => ?_⟩
    rw [List.getElem?_eq_getElem (Nat.lt_trans hlt hindex)]
    exact hbefore before hlt
  · rintro ⟨hdriven, hbefore⟩
    obtain ⟨port, hport, hdriven⟩ := Option.bind_eq_some_iff.mp hdriven
    obtain ⟨hindex, rfl⟩ := List.getElem?_eq_some_iff.mp hport
    refine ⟨hindex, hdriven, fun before hlt => ?_⟩
    have hother := hbefore before hlt
    rwa [List.getElem?_eq_getElem (Nat.lt_trans hlt hindex)] at hother

/-- The link to a name that is taken away is the new one, if the source drives no input before its
target. -/
theorem linkedTarget_linked (hlive : (d.port? target).isSome)
    (htarget : d.targetNamed parent last input = .ok target)
    (hfirst : input = none → ∀ child, d.childNamed parent last = .ok child → ∀ index,
      target = .input child index →
        ∀ before < index, d.incoming (.input child before) ≠ some source) :
    (d.linked source target).linkedTarget parent source first last input = .ok target := by
  have hrewired : d.Rewired (d.linked source target) := rewired_linked
  cases input with
  | some port => exact hrewired.targetNamed htarget
  | none =>
      obtain ⟨outer, houter, htarget⟩ := targetNamed_eq_ok.mp htarget
      obtain ⟨outer', houter', _, houtput, _⟩ := hrewired.named houter
      refine linkedTarget_eq_ok.mpr ⟨outer', houter', ?_⟩
      rw [houtput]
      split at htarget
      next => exact htarget
      next =>
        obtain ⟨child, hchild, htarget⟩ := htarget
        obtain ⟨b, hb, index, _, rfl⟩ := exists_of_inputNamed htarget
        obtain ⟨b', hb', _⟩ := hrewired.named hb
        refine ⟨child, hrewired.childNamed hchild, b', hb', index, (findIdx?_driven hb').mpr ?_, rfl⟩
        rw [incoming_linked hlive]
        refine ⟨if_pos rfl, fun before hlt => ?_⟩
        have hne : PortId.input child before ≠ .input child index := by
          simp only [PortId.input, ne_eq, PortId.mk.injEq, true_and]
          omega
        dsimp only
        rw [if_neg hne]
        exact hfirst rfl child hchild index rfl before hlt

end Diagram

namespace Edit

variable {e e' : Editor α} {source target : PortId} {parent : BlockId} {first last : String}
  {output input : Option String}

/-- A link changes the diagram and nothing else. -/
theorem connectPorts_editor (h : connectPorts source target e = .ok () e') :
    e' = { e with diagram := e.diagram.linked source target } := by
  obtain ⟨hsource, htarget, _⟩ := connectPorts_ok h
  simp only [connectPorts, EStateM.bind_eq_ok, diagram_eq_ok, EStateM.lift_eq_ok, EStateM.ite_eq_ok,
    EStateM.throw_eq_ok] at h
  obtain ⟨_, _, ⟨rfl, rfl⟩, _, _, ⟨_, rfl⟩, _, _, ⟨_, rfl⟩, h⟩ := h
  obtain ⟨p, hp⟩ := Option.isSome_iff_exists.mp hsource
  rcases h with ⟨_, _, _, hfalse, _⟩ | ⟨_, h⟩
  · exact hfalse.elim
  · rw [link, modifyPort_two source target _ _ htarget, Diagram.port_eq hp] at h
    cases h
    rfl

/-- Two ports that were just linked can be unlinked, and then everything is as it was. -/
theorem disconnectPorts_connectPorts (h : e.diagram.WellFormed)
    (hok : connectPorts source target e = .ok () e') :
    disconnectPorts source target e' = .ok () e := by
  obtain ⟨hsource, htarget, _, hfree, _⟩ := connectPorts_ok hok
  have hnew : target ∉ e.diagram.outgoing source := by
    rw [← h.links.mirror, hfree]
    simp
  have hlive : ((e.diagram.linked source target).port? source).isSome := by
    rwa [Diagram.linked, Diagram.port?_isSome_modifyPort, Diagram.port?_isSome_modifyPort]
  have hlinked : (e.diagram.linked source target).incoming target = some source := by
    rw [Diagram.incoming_linked htarget]
    exact if_pos rfl
  have hback := disconnectPorts_eq (e := { e with diagram := e.diagram.linked source target })
    hlive hlinked
  rw [connectPorts_editor hok, hback]
  exact congrArg (fun d => EStateM.Result.ok () { e with diagram := d })
    (Diagram.unlinked_linked hfree hnew)

end Edit

namespace Diagram

variable {d : Diagram α} {parent : BlockId} {first last : String} {output input : Option String}

/-- The target of a new link can be told from what is there before: its input is given, its name is
that of an output of the composite, or no input of the child is driven by the source. -/
def Distinct (d : Diagram α) (parent : BlockId) (first last : String)
    (output input : Option String) : Prop :=
  input.isSome ∨ (∃ outer, d.block? parent = some outer ∧ last ∈ outer.outputs.map Port.name) ∨
    ∀ source child index, d.sourceNamed parent first output = .ok source →
      d.childNamed parent last = .ok child → d.incoming (.input child index) ≠ some source

end Diagram

namespace Edit

variable {e e' : Editor α} {parent : BlockId} {first last : String} {output input : Option String}

/-- Two names that were just linked can be unlinked, and then everything is as it was, if the target
is distinct. -/
theorem disconnect_connect (h : e.diagram.WellFormed)
    (hdistinct : e.diagram.Distinct parent first last output input)
    (hok : connect parent first last output input e = .ok () e') :
    disconnect parent first last output input e' = .ok () e := by
  obtain ⟨source, target, hsource, htarget, hok⟩ := connect_ok hok
  obtain ⟨_, hlive, _⟩ := connectPorts_ok hok
  have hback := disconnectPorts_connectPorts h hok
  rw [connectPorts_editor hok] at hback ⊢
  have hsource' : (e.diagram.linked source target).sourceNamed parent first output = .ok source :=
    Diagram.rewired_linked.sourceNamed hsource
  have htarget' : (e.diagram.linked source target).linkedTarget parent source first last input =
      .ok target := by
    refine Diagram.linkedTarget_linked hlive htarget ?_
    rintro rfl child hchild index rfl before hlt
    obtain hgiven | ⟨outer, houter, hown⟩ | hundriven := hdistinct
    · cases hgiven
    · exact (Diagram.not_own_of_input htarget ⟨outer, houter, hown⟩).elim
    · exact hundriven source child before hsource hchild
  exact EStateM.bind_eq_ok.mpr ⟨_, _, rfl, EStateM.bind_eq_ok.mpr ⟨source, _,
    EStateM.lift_eq_ok.mpr ⟨hsource', rfl⟩, EStateM.bind_eq_ok.mpr ⟨target, _,
      EStateM.lift_eq_ok.mpr ⟨htarget', rfl⟩, hback⟩⟩⟩

end Edit

namespace Diagram

variable [Scalar α] {e : Editor α}

/-- Whatever was built: taking away the link that was just made between two ports, or between two
names where the target is distinct, succeeds and gives back the diagram from before, with every
list of links in its order. -/
theorem Built.restored (h : e.diagram.Built) :
    (∀ source target e', Edit.connectPorts source target e = .ok () e' →
      Edit.disconnectPorts source target e' = .ok () e) ∧
    ∀ parent first last output input e', e.diagram.Distinct parent first last output input →
      Edit.connect parent first last output input e = .ok () e' →
        Edit.disconnect parent first last output input e' = .ok () e :=
  ⟨fun _ _ _ hok => Edit.disconnectPorts_connectPorts h.wellFormed hok,
    fun _ _ _ _ _ _ hdistinct hok => Edit.disconnect_connect h.wellFormed hdistinct hok⟩

/-- An adder with a signal at its first input. -/
def summing : Editor ℚ :=
  performAll { diagram := .empty "model" [] [] }
    [.addBlock ⟨0⟩ "t" .time, .addBlock ⟨0⟩ "a" (.adder 3), .connect ⟨0⟩ "t" "a" none none]

theorem summing_built : summing.diagram.Built := by
  refine .performAll (.empty "model" [] []) fun call hcall e => ?_
  simp only [List.mem_cons, List.not_mem_nil, or_false] at hcall
  rcases hcall with rfl | rfl | rfl <;> exact trivial

/-- The adder is linked to itself, between ports and between names. -/
theorem self_link_restored :
    (∃ e', Edit.connectPorts (.output ⟨2⟩ 0) (.input ⟨2⟩ 1) summing = .ok () e' ∧
      Edit.disconnectPorts (.output ⟨2⟩ 0) (.input ⟨2⟩ 1) e' = .ok () summing) ∧
    ∃ e', Edit.connect ⟨0⟩ "a" "a" none none summing = .ok () e' ∧
      Edit.disconnect ⟨0⟩ "a" "a" none none e' = .ok () summing := by
  have hports : (Edit.connectPorts (.output ⟨2⟩ 0) (.input ⟨2⟩ 1) summing).answer? = some () := by
    decide +kernel
  have hnames : (Edit.connect ⟨0⟩ "a" "a" none none summing).answer? = some () := by decide +kernel
  have hsource : (summing.diagram.sourceNamed ⟨0⟩ "a" none).toOption = some (.output ⟨2⟩ 0) := by
    decide +kernel
  have hundriving : summing.diagram.outgoing (.output ⟨2⟩ 0) = [] := by decide +kernel
  have hdistinct : summing.diagram.Distinct ⟨0⟩ "a" "a" none none := by
    refine .inr (.inr fun source child index hok _ hdriven => ?_)
    cases (Except.eq_ok_of_toOption hsource).symm.trans hok
    rw [summing_built.wellFormed.links.mirror, hundriving] at hdriven
    cases hdriven
  have hrestored := summing_built.restored
  exact ⟨⟨_, EStateM.Result.eq_ok hports, hrestored.1 _ _ _ (EStateM.Result.eq_ok hports)⟩,
    _, EStateM.Result.eq_ok hnames, hrestored.2 _ _ _ _ _ _ hdistinct (EStateM.Result.eq_ok hnames)⟩

end Diagram

end CausalBlocks
