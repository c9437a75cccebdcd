import CausalBlocks.Proofs.Diagram.Downstream
import CausalBlocks.Proofs.Loop.Reading

/-!
# Diagrams that differ in a cone

Two diagrams may differ in the value of one constant and, in the cone that begins there, in their
samples. They have the same dependencies and the same clock, and a block that the cone does not
touch reads the same in both.
-/

namespace CausalBlocks

variable {α : Type}

/-- The operator is the same, or a constant has another value. -/
def Operator.Revalued (op op' : Operator α) : Prop :=
  op' = op ∨ (∃ x, op = .constant x) ∧ ∃ y, op' = .constant y

theorem Operator.Revalued.isClock {op op' : Operator α} (h : op.Revalued op') :
    op'.isClock = op.isClock := by
  obtain rfl | ⟨⟨_, rfl⟩, _, rfl⟩ := h <;> rfl

theorem Operator.Revalued.neededInputs {op op' : Operator α} (h : op.Revalued op')
    (iteration : Nat) : op'.neededInputs iteration = op.neededInputs iteration := by
  obtain rfl | ⟨⟨_, rfl⟩, _, rfl⟩ := h <;> rfl

theorem Operator.Revalued.outputNames {op op' : Operator α} (h : op.Revalued op') :
    op'.outputNames = op.outputNames := by
  obtain rfl | ⟨⟨_, rfl⟩, _, rfl⟩ := h <;> rfl

namespace Diagram

variable {d d' e e' : Diagram α} {c id : BlockId} {p q : PortId} {cone : PortId → Prop}
  {iteration : Nat}

/-! ### Diagrams that are the same beyond a cone -/

/-- Two diagrams differ at most in the value of a constant and in the samples of a cone. -/
structure SameBeyond (c : BlockId) (cone : PortId → Prop) (d e : Diagram α) : Prop where
  frame : SameFrame d e
  size : e.blocks.size = d.blocks.size
  block : ∀ id b, d.block? id = some b → ∃ b', e.block? id = some b' ∧ b'.rate = b.rate ∧
    b.operator.Revalued b'.operator ∧ (id ≠ c → b'.operator = b.operator)
  same : ∀ p, ¬cone p → e.history? p = d.history? p

namespace SameBeyond

/-- Giving a constant another value changes nothing else. -/
theorem constant {b : Block α} {old : α} (hb : d.block? c = some b)
    (hoperator : b.operator = .constant old) (value : α) :
    SameBeyond c cone d (d.modifyBlock c fun b => { b with operator := .constant value }) where
  frame id := by
    rw [block?_modifyBlock]
    split
    next heq =>
      subst heq
      have hprimitive : b.isComposite = false := by
        rw [Block.isComposite, hoperator]
        rfl
      rw [hb, Option.map_some, Option.map_some, Option.map_some, Block.frame, Block.frame,
        hprimitive]
      rfl
    next => rfl
  size := size_modifyBlock _
  block id b' hb' := by
    rw [block?_modifyBlock]
    split
    next heq =>
      subst heq
      cases hb.symm.trans hb'
      refine ⟨{ b with operator := .constant value }, ?_, rfl, .inr ⟨⟨old, hoperator⟩, value, rfl⟩,
        fun hne => absurd rfl hne⟩
      rw [hb, Option.map_some]
    next => exact ⟨b', hb', rfl, .inl rfl, fun _ => rfl⟩
  same p _ := by
    rw [history?, history?, port?_modifyBlock_same fun _ side => by cases side <;> rfl]

variable (h : SameBeyond c cone d e)
include h

theorem congr (hd : d.SameShape d') (he : e.SameShape e')
    (hsame : ∀ p, ¬cone p → e'.history? p = d'.history? p) : SameBeyond c cone d' e' where
  frame := (hd.symm.sameFrame.trans h.frame).trans he.sameFrame
  size := by
    have hsize := fun {x y : Diagram α} (hxy : x.SameShape y) =>
      hxy.congr (fun d => d.blocks.size) size_clearSignals
    exact (hsize he).trans (h.size.trans (hsize hd).symm)
  block id b' hb' := by
    obtain ⟨b, hb, hoperator, hrate, _⟩ := hd.block? hb'
    obtain ⟨x, hx, hrate', hrevalued, hother⟩ := h.block id b hb
    obtain ⟨x', hx', hoperator'', hrate'', _⟩ := he.symm.block? hx
    refine ⟨x', hx', ?_, ?_, fun hne => ?_⟩
    · rw [hrate'', hrate', hrate]
    · rwa [hoperator'', ← hoperator]
    · rw [hoperator'', hother hne, hoperator]
  same := hsame

theorem clearSignals : SameBeyond c cone d.clearSignals e.clearSignals := by
  have hcleared : ∀ (d : Diagram α) p,
      d.clearSignals.history? p = (d.history? p).map fun _ => #[] := by
    intro d p
    rw [history?, history?, port?_clearSignals, Option.map_map, Option.map_map]
    rfl
  refine h.congr d.sameShape_clearSignals e.sameShape_clearSignals fun p hp => ?_
  rw [hcleared, hcleared, h.same p hp]

theorem fitted (hfitted : d.Fitted) : e.Fitted := by
  intro id b' hb' hprimitive
  cases hb : d.block? id with
  | none => cases (h.frame.missing hb).symm.trans hb'
  | some b =>
      have hframe := h.frame.frame_eq hb hb'
      obtain ⟨_, hsame, _, hrevalued, _⟩ := h.block id b hb
      cases hb'.symm.trans hsame
      have hlength := congrArg List.length (Block.ports_of_frame hframe .output)
      rw [List.length_map, List.length_map, Block.ports_output, Block.ports_output] at hlength
      rw [Block.isComposite_of_frame hframe] at hprimitive
      rw [hlength, hrevalued.outputNames, hfitted id b hb hprimitive]

/-- The clock is the same block, or is missing in both. -/
theorem clock : e.clock = d.clock := by
  have hclocks : ∀ isClock isClock' : BlockId → Bool, (∀ x, isClock' x = isClock x) →
      e.primitives.filter isClock' = d.primitives.filter isClock := by
    intro isClock isClock' hsame
    rw [h.frame.primitives h.size]
    exact List.filter_congr fun x _ => hsame x
  rw [Diagram.clock, Diagram.clock, h.frame.name]
  congr 1
  refine hclocks _ _ fun id => ?_
  cases hb : d.block? id with
  | none => rw [h.frame.missing hb]
  | some b =>
      obtain ⟨b', hb', _, hrevalued, _⟩ := h.block id b hb
      rw [hb']
      exact hrevalued.isClock

/-- The dependencies are the same. -/
theorem dependencies : (d.dependencies iteration).Refines (e.dependencies iteration) := by
  have hneeded : ∀ id, (d.neededInputs id iteration).Refines (e.neededInputs id iteration) := by
    intro id inputs hinputs
    obtain ⟨b, hb, rfl⟩ := neededInputs_eq_ok.mp hinputs
    obtain ⟨b', hb', _, hrevalued, _⟩ := h.block id b hb
    exact neededInputs_eq_ok.mpr ⟨b', hb', by rw [hrevalued.neededInputs]⟩
  have hnodes : e.nodes = d.nodes := by
    rw [nodes, nodes, h.frame.primitives h.size, root, root, h.frame.portIds, h.frame.portIds]
  rw [dependencies_eq, dependencies_eq, hnodes, h.frame.primitives h.size, root, root,
    h.frame.portIds]
  refine Except.Refines.bind (.refl _) fun g => ?_
  refine Except.Refines.bind (.foldlM (fun id _ g => ?_) g) fun g => .foldlM (fun p _ g => ?_) g
  · refine (hneeded id).bind fun inputs => .foldlM (fun input _ g => ?_) g
    exact Except.Refines.bind (fun _ => h.frame.driverOf) fun driver => .refl _
  · exact Except.Refines.bind (fun _ => h.frame.prevClosure) fun source => .refl _

/-! ### What is read beyond the cone -/

variable (hcone : d.Cone c cone)
include hcone

theorem inputSample {port : Nat} (hbeyond : ¬cone (.input id port)) :
    (d.inputSample id port iteration).Refines (e.inputSample id port iteration) := by
  intro x hx
  obtain ⟨driver, history, hdriver, hhistory, hx⟩ := inputSample_eq_ok.mp hx
  have hsource : ¬cone driver := fun hinside => hbeyond (hcone.of_driverOf hdriver hinside)
  exact inputSample_eq_ok.mpr
    ⟨driver, history, h.frame.driverOf hdriver, (h.same driver hsource).trans hhistory, hx⟩

/-- A block that the cone does not touch finds the same in both diagrams. -/
theorem readsAlike (huntouched : ¬Touched c cone id) : ReadsAlike d e iteration id where
  block b hb := by
    obtain ⟨b', hb', _, _, hoperator⟩ := h.block id b (block_eq_ok.mp hb)
    have hframe := h.frame.frame_eq (block_eq_ok.mp hb) hb'
    exact ⟨b', block_eq hb', hoperator fun hc => huntouched (.inl hc),
      Block.inputIndex?_of_frame hframe⟩
  driver port _ := h.frame.driverOf
  sample port := h.inputSample hcone fun hinside => huntouched (.inr ⟨port, hinside⟩)

end SameBeyond

end Diagram

end CausalBlocks
