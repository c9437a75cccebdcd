import Mathlib.Logic.Relation
import CausalBlocks.Proofs.Diagram.Construction

/-!
# Consistency

What a reader of a diagram can rely on, said about its blocks and ports: links are
kept at both ends, blocks form a tree, composites know their children by name, and
signals enter a primitive at its inputs and leave it at its outputs.
-/

namespace CausalBlocks.Diagram

variable {α : Type} {d : Diagram α}

/-- The parent that a block has. -/
def ParentOf (d : Diagram α) (id up : BlockId) : Prop :=
  ∃ b, d.block? id = some b ∧ b.parent = some up

/-- A block is another one or lies inside it. -/
def Inside (d : Diagram α) (top x : BlockId) : Prop := Relation.ReflTransGen d.ParentOf x top

/-- A diagram that agrees with itself. -/
structure Consistent (d : Diagram α) : Prop where
  /-- A port names the one that drives it exactly if that one is there and names
  it too. -/
  linked : ∀ p q, (∃ target, d.port? q = some target ∧ target.incoming = some p) ↔
    ∃ source, d.port? p = some source ∧ q ∈ source.outgoing
  once : ∀ p q source, d.port? p = some source → q ∈ source.outgoing →
    source.outgoing.count q = 1
  root : ∃ b, d.block? d.root = some b ∧ b.parent = none
  /-- Every other block is listed once by a composite, its parent. -/
  parent : ∀ id b, d.block? id = some b → id ≠ d.root → ∃ up above, b.parent = some up ∧
    d.block? up = some above ∧ above.isComposite = true ∧ above.children.count id = 1
  /-- No other block lists it. -/
  listed : ∀ up above id, d.block? up = some above → id ∈ above.children → d.ParentOf id up
  reaches : ∀ id b, d.block? id = some b → Relation.ReflTransGen d.ParentOf id d.root
  indexed : ∀ id b, d.block? id = some b → (b.childIndex.map Prod.fst).Nodup ∧
    ∀ name child, (name, child) ∈ b.childIndex ↔
      child ∈ b.children ∧ ∃ c, d.block? child = some c ∧ c.name = name
  named : ∀ id b child c, d.block? id = some b → child ∈ b.children → d.block? child = some c →
    c.name ≠ "" ∧ c.name ∉ (b.inputs ++ b.outputs).map Port.name
  /-- A primitive's inputs drive nothing, and nothing drives its outputs. -/
  directed : ∀ id b, d.block? id = some b → b.isComposite = false →
    (∀ p ∈ b.inputs, p.outgoing = []) ∧ ∀ p ∈ b.outputs, p.incoming = none

namespace WellFormed

variable {id up : BlockId} {b : Block α}

theorem linked_iff (h : d.WellFormed) (p q : PortId) :
    (∃ target, d.port? q = some target ∧ target.incoming = some p) ↔
      ∃ source, d.port? p = some source ∧ q ∈ source.outgoing := by
  have hincoming : d.incoming q = some p ↔
      ∃ target, d.port? q = some target ∧ target.incoming = some p := Option.bind_eq_some_iff
  have houtgoing : q ∈ d.outgoing p ↔
      ∃ source, d.port? p = some source ∧ q ∈ source.outgoing := by
    refine ⟨port?_of_mem_outgoing, ?_⟩
    rintro ⟨source, hsource, hmem⟩
    rwa [outgoing_eq hsource]
  rw [← hincoming, ← houtgoing]
  exact h.links.mirror p q

theorem parentOf_iff : d.ParentOf id up ↔ parentAt d.place? id = some up := by
  rw [ParentOf, parentAt, place?]
  cases d.block? id <;> simp [Block.place]

theorem reaches_root (h : d.WellFormed) (hlive : (d.block? id).isSome) :
    Relation.ReflTransGen d.ParentOf id d.root := by
  -- the parent of a block was created before it
  have hclimb : ∀ n (id : BlockId), id.index < n → (d.block? id).isSome →
      Relation.ReflTransGen d.ParentOf id d.root := by
    intro n
    induction n with
    | zero => exact fun id hlt => absurd hlt (Nat.not_lt_zero _)
    | succ n ih =>
        intro id hlt hlive
        by_cases hroot : id = ⟨0⟩
        · rw [hroot]
          exact .refl
        · have hplace : (d.place? id).isSome := by rwa [place?, Option.isSome_map]
          obtain ⟨up, hmem⟩ := h.tree.parent id hplace hroot
          obtain ⟨_, hparent, hcomposite, hlt'⟩ := h.tree.child up id hmem
          have hup := isSome_of_compositeAt hcomposite
          rw [place?, Option.isSome_map] at hup
          exact .head (parentOf_iff.mpr hparent) (ih up (by omega) hup)
  exact hclimb (id.index + 1) id (Nat.lt_succ_self _) hlive

theorem lt_of_parentOf (h : d.WellFormed) (hup : d.ParentOf id up) : up.index < id.index :=
  (h.tree.child up id (h.listed (parentOf_iff.mp hup))).2.2.2

theorem le_of_inside (h : d.WellFormed) {top : BlockId} (hid : d.Inside top id) :
    top.index ≤ id.index := by
  induction hid using Relation.ReflTransGen.head_induction_on with
  | refl => exact Nat.le_refl _
  | head hup _ ih =>
      have := h.lt_of_parentOf hup
      omega

theorem inside_of_mem_below (h : d.WellFormed) {depth : Nat} {top : BlockId}
    (hid : id ∈ d.below depth top) : d.Inside top id := by
  -- parents are listed too, and come earlier
  induction hindex : id.index using Nat.strongRecOn generalizing id with
  | ind n ih =>
    by_cases hne : id = top
    · rw [hne]
      exact .refl
    · obtain ⟨up, hup, hmem⟩ := parent_mem_below hid hne
      obtain ⟨_, hparent, _, hlt⟩ := h.tree.child up id hmem
      exact .head (parentOf_iff.mpr hparent) (ih up.index (by omega) hup rfl)

/-- What is listed below a block is what lies inside it. -/
theorem mem_descendants_iff_inside (h : d.WellFormed) {top : BlockId}
    (hlive : (d.block? top).isSome) : id ∈ d.descendants top ↔ d.Inside top id := by
  refine ⟨h.inside_of_mem_below, fun hid => ?_⟩
  induction hid using Relation.ReflTransGen.head_induction_on with
  | refl => exact self_mem_descendants hlive
  | head hup _ ih =>
      exact children_mem_below h.tree (Nat.le_add_left _ _) ih (h.listed (parentOf_iff.mp hup))

theorem parent_lists (h : d.WellFormed) (hb : d.block? id = some b) (hroot : id ≠ d.root) :
    ∃ up above, b.parent = some up ∧ d.block? up = some above ∧ above.isComposite = true ∧
      above.children.count id = 1 := by
  obtain ⟨up, hmem⟩ := h.tree.parent id (by rw [place?_eq hb]; rfl) hroot
  obtain ⟨_, hparent, hcomposite, _⟩ := h.tree.child up id hmem
  have hup := isSome_of_compositeAt hcomposite
  rw [place?, Option.isSome_map] at hup
  obtain ⟨above, habove⟩ := Option.isSome_iff_exists.mp hup
  have hnodup := h.tree.nodup up
  rw [parentAt, place?_eq hb] at hparent
  rw [compositeAt, place?_eq habove] at hcomposite
  rw [childrenAt_eq habove] at hmem hnodup
  exact ⟨up, above, hparent, habove, hcomposite, List.count_eq_one_of_mem hnodup hmem⟩

theorem indexed_iff (h : d.WellFormed) (hb : d.block? id = some b) :
    (b.childIndex.map Prod.fst).Nodup ∧ ∀ name child, (name, child) ∈ b.childIndex ↔
      child ∈ b.children ∧ ∃ c, d.block? child = some c ∧ c.name = name := by
  have hindexAt : indexAt d.place? id = b.childIndex := by rw [indexAt, place?_eq hb]; rfl
  have hnameAt : ∀ child name, nameAt d.place? child = some name ↔
      ∃ c, d.block? child = some c ∧ c.name = name := by
    intro child name
    rw [nameAt, place?]
    cases d.block? child <;> simp [Block.place]
  have hnames := h.tree.names id
  rw [hindexAt] at hnames
  refine ⟨hnames, fun name child => ?_⟩
  rw [← hindexAt, ← childrenAt_eq hb, ← hnameAt]
  exact h.tree.index id name child

theorem directed_ports (h : d.WellFormed) (hb : d.block? id = some b)
    (hprimitive : b.isComposite = false) :
    (∀ p ∈ b.inputs, p.outgoing = []) ∧ ∀ p ∈ b.outputs, p.incoming = none := by
  have hcomposite : ¬∃ here, d.place? id = some here ∧ here.composite = true := by
    rintro ⟨here, hhere, hcomposite⟩
    rw [place?_eq hb, Option.some.injEq] at hhere
    rw [← hhere] at hcomposite
    exact absurd hcomposite (by rw [Block.place, hprimitive]; simp)
  constructor
  · intro p hp
    obtain ⟨index, hindex⟩ := List.mem_iff_getElem?.mp hp
    have hport : d.port? (.input id index) = some p := by rw [port?_eq hb]; exact hindex
    refine List.eq_nil_iff_forall_not_mem.mpr fun q hq => hcomposite ?_
    rw [← outgoing_eq hport, ← h.links.mirror] at hq
    exact (h.links.composite_of_incoming hq).1 rfl
  · intro p hp
    obtain ⟨index, hindex⟩ := List.mem_iff_getElem?.mp hp
    have hport : d.port? (.output id index) = some p := by rw [port?_eq hb]; exact hindex
    refine Option.eq_none_iff_forall_ne_some.mpr fun q hq => hcomposite ?_
    rw [← incoming_eq hport] at hq
    exact (h.links.composite_of_incoming hq).2 rfl

end WellFormed

/-- Whatever calls are made, in whatever order, the diagram agrees with itself. -/
theorem Built.consistent [Scalar α] (h : d.Built) : d.Consistent := by
  have hwell := h.wellFormed
  constructor
  case linked => exact hwell.linked_iff
  case once =>
    intro p q source hsource hmem
    have hnodup := hwell.links.nodup p
    rw [outgoing_eq hsource] at hnodup
    exact List.count_eq_one_of_mem hnodup hmem
  case root =>
    obtain ⟨hcomposite, hnone⟩ := hwell.top
    obtain ⟨here, hhere⟩ := Option.isSome_iff_exists.mp (isSome_of_compositeAt hcomposite)
    obtain ⟨b, hb, rfl⟩ := place?_eq_some hhere
    rw [parentAt, hhere] at hnone
    exact ⟨b, hb, hnone⟩
  case parent => exact fun id b hb hroot => hwell.parent_lists hb hroot
  case listed =>
    intro up above id habove hmem
    rw [← childrenAt_eq habove] at hmem
    exact WellFormed.parentOf_iff.mpr (hwell.tree.child up id hmem).2.1
  case reaches => exact fun id b hb => hwell.reaches_root (by rw [hb]; rfl)
  case indexed => exact fun id b hb => hwell.indexed_iff hb
  case named =>
    intro id b child c hb hmem hc
    have hentry := ((hwell.indexed_iff hb).2 c.name child).mpr ⟨hmem, c, hc, rfl⟩
    have hfree := hwell.tree.free id c.name child
    rw [indexAt, portNamesAt, place?_eq hb] at hfree
    exact hfree hentry
  case directed => exact fun id b hb hprimitive => hwell.directed_ports hb hprimitive

/-- A composite that drives itself is copied into itself, and all is flattened. -/
theorem consistent_self_driven : ∃ d : Diagram Float, d.Built ∧ d.Consistent ∧
    d.incoming (.input ⟨2⟩ 0) = some (.output ⟨2⟩ 0) ∧ (d.block? ⟨3⟩).isSome = false := by
  let e₀ : Editor Float := { diagram := .empty "model" [] [] }
  let e₁ := ((DiagramCall.addComposite ⟨0⟩ "box" "Box" ["IN1"] ["OUT1"]).perform e₀).state
  let e₂ := ((DiagramCall.addBlock ⟨1⟩ "neg" .negator).perform e₁).state
  let e₃ := ((DiagramCall.connect ⟨1⟩ "IN1" "neg" none none).perform e₂).state
  let e₄ := ((DiagramCall.connect ⟨1⟩ "neg" "OUT1" none none).perform e₃).state
  let e₅ := ((DiagramCall.connect ⟨0⟩ "box" "box" none none).perform e₄).state
  let e₆ := ((DiagramCall.clone ⟨1⟩ ⟨1⟩ "copy").perform e₅).state
  let e₇ := ((DiagramCall.flatten ⟨0⟩ []).perform e₆).state
  have h₅ : e₅.diagram.Built := .call _ (.call _ (.call _ (.call _ (.call _ (.empty _ _ _) trivial)
    trivial) trivial) trivial) trivial
  have hlive : (e₅.diagram.block? ⟨1⟩).isSome = true := by decide +kernel
  have h₆ : e₆.diagram.Built := .call _ h₅ hlive
  have hflat : (match Edit.flatten ⟨0⟩ [] e₆ with | .ok _ _ => true | .error _ _ => false) = true := by
    decide +kernel
  have h₇ : e₇.diagram.Built := by
    refine .call _ h₆ ?_
    split at hflat
    next e' hok => exact ⟨e', hok⟩
    next => cases hflat
  exact ⟨e₇.diagram, h₇, h₇.consistent, by decide +kernel, by decide +kernel⟩

end CausalBlocks.Diagram
