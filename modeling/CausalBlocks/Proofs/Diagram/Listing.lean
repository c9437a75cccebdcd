import CausalBlocks.Proofs.Diagram.Alike
import CausalBlocks.Proofs.Diagram.Signals

/-!
# Listing a diagram

Blocks are listed by a loop over a stack, signals by going down into composites. In a diagram
that was built, however it has been copied and taken apart since, the loop ends, nothing is
missing or listed twice, blocks come after their parents, and signals inside a composite before
the ones that leave it.
-/

namespace List

variable {β : Type} {R : β → β → Prop} {xs : List β} {x y : β}

/-- Two elements of a list stand in the order that is not ruled out. -/
theorem pair_sublist_of_pairwise (h : xs.Pairwise R) (hx : x ∈ xs) (hy : y ∈ xs) (hne : x ≠ y)
    (hyx : ¬R y x) : [x, y].Sublist xs := by
  induction h with
  | nil => cases hx
  | cons hhead _ ih =>
      rcases mem_cons.mp hx with rfl | hx'
      · have hrest := (mem_cons.mp hy).resolve_left (Ne.symm hne)
        exact (singleton_sublist.mpr hrest).cons_cons _
      · rcases mem_cons.mp hy with rfl | hy'
        · exact absurd (hhead x hx') hyx
        · exact (ih hx' hy').cons _

end List

namespace CausalBlocks

variable {α β : Type}

/-- A list holds everything of a kind once, and nothing else. -/
def ListsOnce (xs : List β) (kind : β → Prop) : Prop := xs.Nodup ∧ ∀ x, x ∈ xs ↔ kind x

/-! ### The loop over a stack -/

/-- A traversal under way: the blocks to look at, the next one first, and what has been listed. -/
structure Traversal where
  stack : List BlockId
  listed : List BlockId

namespace Traversal

open Diagram

variable {loose : BlockId → Prop} {d : Diagram α} {depth turns : Nat} {id : BlockId} {b : Block α}
  {stack listed out : List BlockId}

/-- A turn of the loop: the next block is listed, and its children are looked at before the rest
of the stack. A block that is not there is passed over. -/
def turn (d : Diagram α) : Traversal → Option Traversal
  | ⟨[], _⟩ => none
  | ⟨id :: stack, listed⟩ =>
    match d.block? id with
    | some b => some ⟨b.children ++ stack, listed ++ [id]⟩
    | none => some ⟨stack, listed⟩

/-- The loop stops after a number of turns, and these blocks have been listed. -/
inductive Ends (d : Diagram α) : Nat → Traversal → List BlockId → Prop
  | stop {t : Traversal} (h : t.turn d = none) : Ends d 0 t t.listed
  | turn {t t' : Traversal} {turns : Nat} {out : List BlockId} (h : t.turn d = some t')
      (hrest : Ends d turns t' out) : Ends d (turns + 1) t out

theorem turn_of_block? (hb : d.block? id = some b) :
    turn d ⟨id :: stack, listed⟩ = some ⟨b.children ++ stack, listed ++ [id]⟩ := by
  rw [turn, hb]

/-- Blocks on top of the stack are dealt with one after the other, if each of them alone is. -/
theorem ends_flatMap {f : BlockId → List BlockId} {ids : List BlockId}
    (hone : ∀ id ∈ ids, ∀ turns stack listed, Ends d turns ⟨stack, listed ++ f id⟩ out →
      Ends d ((f id).length + turns) ⟨id :: stack, listed⟩ out)
    (hrest : Ends d turns ⟨stack, listed ++ ids.flatMap f⟩ out) :
    Ends d ((ids.flatMap f).length + turns) ⟨ids ++ stack, listed⟩ out := by
  induction ids generalizing listed with
  | nil => simpa using hrest
  | cons id ids ih =>
      rw [List.flatMap_cons, List.length_append, Nat.add_assoc]
      apply hone id List.mem_cons_self
      apply ih fun id hid => hone id (List.mem_cons_of_mem _ hid)
      rwa [List.append_assoc, ← List.flatMap_cons]

/-- The loop lists what is below a block, with a turn for each, and goes on with the stack. -/
theorem ends_below (h : Nested loose d.place?) (hlive : (d.block? id).isSome)
    (hdepth : d.blocks.size ≤ id.index + depth)
    (hrest : Ends d turns ⟨stack, listed ++ d.below depth id⟩ out) :
    Ends d ((d.below depth id).length + turns) ⟨id :: stack, listed⟩ out := by
  induction depth generalizing id turns stack listed with
  | zero =>
      obtain ⟨b, hb⟩ := Option.isSome_iff_exists.mp hlive
      have := lt_size_of_block? hb
      omega
  | succ depth ih =>
      obtain ⟨b, hb⟩ := Option.isSome_iff_exists.mp hlive
      rw [below_of_block? hb, List.append_cons] at hrest
      rw [below_of_block? hb, List.length_cons, Nat.add_right_comm]
      apply Ends.turn (turn_of_block? hb)
      refine ends_flatMap (fun child hchild turns stack listed => ?_) hrest
      rw [← childrenAt_eq hb] at hchild
      have hlt := (h.child id child hchild).2.2.2
      exact ih (live_of_mem_children h hchild) (by omega)

end Traversal

namespace Diagram

variable {d : Diagram α} {depth : Nat} {id x : BlockId} {p q : PortId}

/-! ### Complete lists -/

/-- What the lists of a diagram hold, how often, and in which order. -/
structure Enumerated (d : Diagram α) : Prop where
  /-- The loop from the root ends, after one turn for each block. -/
  ends : Traversal.Ends d (d.descendants d.root).length ⟨[d.root], []⟩ (d.descendants d.root)
  blocks : ListsOnce (d.descendants d.root) fun id => ∃ b, d.block? id = some b
  parentFirst : ∀ id b, d.block? id = some b → id ≠ d.root → ∃ up, b.parent = some up ∧
    [up, id].Sublist (d.descendants d.root)
  primitives : ListsOnce d.primitives fun id => ∃ b, d.block? id = some b ∧ b.isComposite = false
  /-- Going down into composites ends as well, having listed their children in order. -/
  collected : ∀ id b, d.block? id = some b →
    d.outputsBelow d.blocks.size id = b.children.flatMap (d.childOutputs d.blocks.size)
  /-- The outputs of all other blocks come before those of the root, which are in order. -/
  signals : ∃ root inner, d.block? d.root = some root ∧
    d.signalPorts = inner ++ (List.range root.outputs.length).map (.output d.root) ∧
    ListsOnce inner fun p => p.block ≠ d.root ∧ p.side = .output ∧ ∃ port, d.port? p = some port
  /-- The outputs of the blocks inside a composite come before its own. -/
  innerFirst : ∀ p q, p ∈ d.signalPorts → q ∈ d.signalPorts → d.Inside q.block p.block →
    p.block ≠ q.block → [p, q].Sublist d.signalPorts

/-! ### The outputs of all blocks -/

theorem isComposite_of_mem_below (h : Nested loose d.place?) (hx : x ∈ d.below depth id)
    (hne : x ≠ id) : d.isComposite id = true := by
  cases depth with
  | zero => cases hx
  | succ depth =>
      obtain ⟨child, hchild, _⟩ := (mem_below hx).resolve_left hne
      rw [← compositeAt_eq_isComposite]
      exact (h.child id child hchild).2.2.1

/-- The outputs of all blocks below a block are listed for it. -/
theorem mem_outputsBelow_of_below (h : Nested loose d.place?) (hx : x ∈ d.below depth id)
    (hne : x ≠ id) (hp : p ∈ d.portIds x .output) : p ∈ d.outputsBelow depth id := by
  induction depth generalizing id with
  | zero => cases hx
  | succ depth ih =>
      obtain ⟨b, hb⟩ := Option.isSome_iff_exists.mp (live_of_below hx)
      obtain ⟨child, hchild, hx⟩ := (mem_below hx).resolve_left hne
      rw [childrenAt_eq hb] at hchild
      rw [outputsBelow_of_block? hb, List.mem_flatMap]
      refine ⟨child, hchild, List.mem_append.mpr ?_⟩
      by_cases hxc : x = child
      · rw [← hxc]
        exact .inr hp
      · rw [if_pos (isComposite_of_mem_below h hx hxc)]
        exact .inl (ih hx hxc)

/-- Depths that cover the diagram make no difference. -/
theorem outputsBelow_eq (h : Nested loose d.place?) {depth' : Nat}
    (hdepth : d.blocks.size ≤ id.index + depth) (hdepth' : d.blocks.size ≤ id.index + depth') :
    d.outputsBelow depth id = d.outputsBelow depth' id := by
  induction depth generalizing id depth' with
  | zero =>
      have hb : d.block? id = none := block?_eq_none_of_size_le hdepth
      rw [outputsBelow_of_missing hb, outputsBelow_of_missing hb]
  | succ depth ih =>
      cases hb : d.block? id with
      | none => rw [outputsBelow_of_missing hb, outputsBelow_of_missing hb]
      | some b =>
          have hlt := lt_size_of_block? hb
          obtain ⟨rest, rfl⟩ := Nat.exists_eq_succ_of_ne_zero (by omega : depth' ≠ 0)
          rw [outputsBelow_of_block? hb, outputsBelow_of_block? hb]
          apply List.flatMap_congr
          intro child hchild
          rw [← childrenAt_eq hb] at hchild
          have hdown := (h.child id child hchild).2.2.2
          have hdeep : d.blocks.size ≤ child.index + depth := by omega
          have hdeep' : d.blocks.size ≤ child.index + rest := by omega
          rw [childOutputs, childOutputs, ih hdeep hdeep']

/-! ### Signals inside a composite come before its own -/

/-- Two outputs may come in this order: the second one is not on a block inside that of the
first one. -/
def Outward (d : Diagram α) (p q : PortId) : Prop := d.Inside p.block q.block → p.block = q.block

namespace WellFormed

variable (h : d.WellFormed)
include h

theorem inside_antisymm (hxy : d.Inside x id) (hyx : d.Inside id x) : x = id :=
  congrArg BlockId.mk (Nat.le_antisymm (h.le_of_inside hxy) (h.le_of_inside hyx))

/-- A block lies inside one child only. -/
theorem child_unique {child other : BlockId} (hchild : child ∈ childrenAt d.place? id)
    (hother : other ∈ childrenAt d.place? id) (hx : d.Inside child x) (hx' : d.Inside other x) :
    child = other := by
  rw [← h.mem_descendants_iff_inside (live_of_mem_children h.tree hchild)] at hx
  rw [← h.mem_descendants_iff_inside (live_of_mem_children h.tree hother)] at hx'
  by_contra hne
  exact below_disjoint h.tree hchild hother hne hx hx'

theorem childOutputs_pairwise (hbelow : (d.outputsBelow depth id).Pairwise d.Outward) :
    (d.childOutputs depth id).Pairwise d.Outward := by
  rw [childOutputs, List.pairwise_append]
  refine ⟨?_, ?_, ?_⟩
  · split
    · exact hbelow
    · exact .nil
  · refine List.pairwise_of_forall_mem_list fun p hp q hq _ => ?_
    rw [(mem_portIds_iff.mp hp).1, (mem_portIds_iff.mp hq).1]
  · intro p hp q hq hinside
    split at hp
    next =>
      obtain ⟨_, hmem, _⟩ := mem_outputsBelow h.tree hp
      rw [(mem_portIds_iff.mp hq).1] at hinside ⊢
      exact h.inside_antisymm hinside (h.inside_of_mem_below hmem)
    next => cases hp

theorem outputsBelow_pairwise (depth : Nat) (id : BlockId) :
    (d.outputsBelow depth id).Pairwise d.Outward := by
  induction depth generalizing id with
  | zero => exact .nil
  | succ depth ih =>
      cases hb : d.block? id with
      | none =>
          rw [outputsBelow_of_missing hb]
          exact .nil
      | some b =>
          rw [outputsBelow_of_block? hb, List.pairwise_flatMap]
          refine ⟨fun child _ => h.childOutputs_pairwise (ih child), ?_⟩
          have hnodup := h.tree.nodup id
          rw [childrenAt_eq hb] at hnodup
          refine hnodup.imp_of_mem fun {child other} hchild hother hne p hp q hq hinside => ?_
          rw [← childrenAt_eq hb] at hchild hother
          -- otherwise the second port would lie inside both children
          have hpchild := h.inside_of_mem_below
            (block_mem_below h.tree (live_of_mem_children h.tree hchild) hp)
          have hqother := h.inside_of_mem_below
            (block_mem_below h.tree (live_of_mem_children h.tree hother) hq)
          exact absurd (h.child_unique hchild hother (hinside.trans hpchild) hqother) hne

/-! ### The lists of a well-formed diagram -/

theorem ends_descendants (hlive : (d.block? id).isSome) :
    Traversal.Ends d (d.descendants id).length ⟨[id], []⟩ (d.descendants id) := by
  have hstop : Traversal.Ends d 0 ⟨[], [] ++ d.descendants id⟩ (d.descendants id) := .stop rfl
  exact Traversal.ends_below h.tree hlive (Nat.le_add_left _ _) hstop

/-- A parent comes before its child. -/
theorem parent_sublist {up : BlockId} (hup : d.ParentOf id up) :
    [up, id].Sublist (d.descendants d.root) := by
  have hmem := h.listed (parentOf_iff.mp hup)
  have hne : up ≠ id := by
    rintro rfl
    exact Nat.lt_irrefl _ (h.lt_of_parentOf hup)
  obtain ⟨b, hb, _⟩ := hup
  have hid : id ∈ d.descendants d.root := by
    rw [h.mem_descendants_iff, hb]
    rfl
  have hup := parent_mem_of_listed h.tree hid (h.tree.child up id hmem).1 hmem
  exact List.pair_sublist_of_pairwise (below_pairwise h.tree) hup hid hne fun hno => hno.2 hmem

theorem mem_outputsBelow_root_iff : p ∈ d.outputsBelow d.blocks.size d.root ↔
    p.block ≠ d.root ∧ p.side = .output ∧ ∃ port, d.port? p = some port := by
  rw [← Option.isSome_iff_exists]
  constructor
  · intro hp
    obtain ⟨hport, _, hne⟩ := mem_outputsBelow h.tree hp
    exact ⟨hne, (mem_portIds_iff.mp hport).2⟩
  · rintro ⟨hne, hside, hport⟩
    obtain ⟨port, hport'⟩ := Option.isSome_iff_exists.mp hport
    obtain ⟨b, hb, _⟩ := block?_of_port? hport'
    have hbelow : p.block ∈ d.descendants d.root := by
      rw [h.mem_descendants_iff, hb]
      rfl
    exact mem_outputsBelow_of_below h.tree hbelow hne (mem_portIds_iff.mpr ⟨rfl, hside, hport⟩)

/-- What is listed for the model is what is listed for a child. -/
theorem signalPorts_eq : d.signalPorts = d.childOutputs d.blocks.size d.root := by
  have hroot : compositeAt d.place? d.root = true := h.top.1
  rw [compositeAt_eq_isComposite] at hroot
  rw [childOutputs, if_pos hroot, signalPorts]

theorem inner_sublist (hp : p ∈ d.signalPorts) (hq : q ∈ d.signalPorts)
    (hinside : d.Inside q.block p.block) (hne : p.block ≠ q.block) :
    [p, q].Sublist d.signalPorts := by
  have hpairwise := h.childOutputs_pairwise (h.outputsBelow_pairwise d.blocks.size d.root)
  rw [← h.signalPorts_eq] at hpairwise
  refine List.pair_sublist_of_pairwise hpairwise hp hq ?_ fun heq => hne (heq hinside).symm
  rintro rfl
  exact hne rfl

end WellFormed

/-- The lists of a diagram that was built are complete, without repetition, and in order. -/
theorem Built.enumerated [Scalar α] (h : d.Built) : d.Enumerated := by
  have hwell := h.wellFormed
  constructor
  case ends => exact hwell.ends_descendants hwell.live_root
  case blocks =>
    refine ⟨below_nodup hwell.tree, fun id => ?_⟩
    rw [hwell.mem_descendants_iff, Option.isSome_iff_exists]
  case parentFirst =>
    intro id b hb hroot
    obtain ⟨up, _, hup, _⟩ := hwell.parent_lists hb hroot
    exact ⟨up, hup, hwell.parent_sublist ⟨b, hb, hup⟩⟩
  case primitives =>
    refine ⟨hwell.nodup_primitives, fun id => ?_⟩
    rw [hwell.mem_primitives_iff, isComposite]
    cases hb : d.block? id <;> simp [hb]
  case collected =>
    intro id b hb
    have hdeeper : d.blocks.size ≤ id.index + (d.blocks.size + 1) := by omega
    rw [outputsBelow_eq hwell.tree (Nat.le_add_left _ _) hdeeper, outputsBelow_of_block? hb]
  case signals =>
    obtain ⟨root, hroot⟩ := Option.isSome_iff_exists.mp hwell.live_root
    refine ⟨root, d.outputsBelow d.blocks.size d.root, hroot, ?_, nodup_outputsBelow hwell.tree,
      fun p => hwell.mem_outputsBelow_root_iff⟩
    rw [signalPorts, portIds, show d.block? d.root = some root from hroot]
    rfl
  case innerFirst => exact fun p q hp hq => hwell.inner_sublist hp hq

/-- A box is copied, and both are taken apart; blocks in it move up behind a later one. -/
theorem enumerated_taken_apart : ∃ d : Diagram Float, d.Built ∧ d.Enumerated ∧
    (d.descendants d.root).map BlockId.index = [0, 5, 2, 3, 4, 7, 8, 9] ∧
      d.primitives.map BlockId.index = [5, 3, 4, 8, 9] ∧
        d.signalNames = ["last.OUT1", "box.kept.neg.OUT1", "box.kept.OUT1", "box.gain.OUT1",
          "copy.kept.neg.OUT1", "copy.kept.OUT1", "copy.gain.OUT1", "Y"] := by
  let calls : List (DiagramCall Float) := [
    .addComposite ⟨0⟩ "box" "Box" ["IN1"] ["OUT1"],
    .addComposite ⟨1⟩ "kept" "Keep" ["IN1"] ["OUT1"],
    .addBlock ⟨2⟩ "neg" .negator,
    .addBlock ⟨1⟩ "gain" (.gain 2),
    .addBlock ⟨0⟩ "last" .negator]
  let e₁ := performAll { diagram := .empty "model" ["X"] ["Y"] } calls
  let e₂ := ((DiagramCall.clone ⟨1⟩ ⟨0⟩ "copy").perform e₁).state
  let e₃ := ((DiagramCall.flatten ⟨0⟩ ["Keep"]).perform e₂).state
  have h₁ : e₁.diagram.Built := (Built.empty "model" ["X"] ["Y"]).performAll
    (e := { diagram := .empty "model" ["X"] ["Y"] }) (by simp [calls, DiagramCall.Allowed])
  have hlive : (e₁.diagram.block? ⟨1⟩).isSome = true := by decide +kernel
  have h₂ : e₂.diagram.Built := .call _ h₁ hlive
  have hflat : (Edit.flatten ⟨0⟩ ["Keep"] e₂).answer? = some () := by decide +kernel
  have h₃ : e₃.diagram.Built := .call _ h₂ ⟨_, EStateM.Result.eq_ok hflat⟩
  exact ⟨e₃.diagram, h₃, h₃.enumerated, by decide +kernel, by decide +kernel, by decide +kernel⟩

end Diagram

end CausalBlocks
