import CausalBlocks.Proofs.Dependency.Build
import CausalBlocks.Proofs.Diagram.Lookup

/-!
# Names of signals

The outputs of all blocks are listed once each. Where names hold no points, and a block's outputs
have different names, each of them is found under its name, also after composites have been taken
apart.
-/

namespace CausalBlocks.Diagram

variable {α : Type} {loose : BlockId → Prop} {d : Diagram α} {depth : Nat} {id child : BlockId}
  {p : PortId} {b : Block α}

/-- The outputs that are listed for a child: those inside it, and its own. -/
def childOutputs (d : Diagram α) (depth : Nat) (child : BlockId) : List PortId :=
  (if d.isComposite child then d.outputsBelow depth child else []) ++ d.portIds child .output

theorem outputsBelow_of_block? (hb : d.block? id = some b) (depth : Nat) :
    d.outputsBelow (depth + 1) id = b.children.flatMap (d.childOutputs depth) := by
  rw [outputsBelow, hb]
  rfl

theorem outputsBelow_of_missing (hb : d.block? id = none) (depth : Nat) :
    d.outputsBelow depth id = [] := by
  cases depth with
  | zero => rfl
  | succ depth => rw [outputsBelow, hb]

theorem mem_childOutputs (hp : p ∈ d.childOutputs depth child) :
    p ∈ d.outputsBelow depth child ∨ p ∈ d.portIds child .output := by
  refine (List.mem_append.mp hp).imp_left fun hp => ?_
  split at hp
  next => exact hp
  next => cases hp

/-- What is listed for a block are outputs of blocks below it. -/
theorem mem_outputsBelow (h : Nested loose d.place?) (hp : p ∈ d.outputsBelow depth id) :
    p ∈ d.portIds p.block .output ∧ p.block ∈ d.below (depth + 1) id ∧ p.block ≠ id := by
  induction depth generalizing id with
  | zero => cases hp
  | succ depth ih =>
      cases hb : d.block? id with
      | none =>
          rw [outputsBelow_of_missing hb] at hp
          cases hp
      | some b =>
          rw [outputsBelow_of_block? hb] at hp
          obtain ⟨child, hchild, hp⟩ := List.mem_flatMap.mp hp
          have hlisted : child ∈ childrenAt d.place? id := by rwa [childrenAt_eq hb]
          have hbelow : p ∈ d.portIds p.block .output ∧ p.block ∈ d.below (depth + 1) child := by
            rcases mem_childOutputs hp with hp | hp
            · exact ⟨(ih hp).1, (ih hp).2.1⟩
            · obtain rfl := (mem_portIds_iff.mp hp).1
              exact ⟨hp, self_mem_below (live_of_mem_children h hlisted) depth⟩
          refine ⟨hbelow.1, ?_, ?_⟩
          · rw [below_of_block? hb]
            exact List.mem_cons_of_mem _ (List.mem_flatMap.mpr ⟨child, hchild, hbelow.2⟩)
          · rintro rfl
            have hle := index_le_of_mem_below h hbelow.2
            have hlt := (h.child _ child hlisted).2.2.2
            omega

theorem block_mem_below (h : Nested loose d.place?) (hlive : (d.block? child).isSome)
    (hp : p ∈ d.childOutputs depth child) : p.block ∈ d.below (depth + 1) child := by
  rcases mem_childOutputs hp with hp | hp
  · exact (mem_outputsBelow h hp).2.1
  · obtain rfl := (mem_portIds_iff.mp hp).1
    exact self_mem_below hlive depth

/-- No output is listed twice. -/
theorem nodup_outputsBelow (h : Nested loose d.place?) : (d.outputsBelow depth id).Nodup := by
  induction depth generalizing id with
  | zero => exact .nil
  | succ depth ih =>
      cases hb : d.block? id with
      | none =>
          rw [outputsBelow_of_missing hb]
          exact .nil
      | some b =>
          have hchildren := childrenAt_eq hb
          rw [outputsBelow_of_block? hb, List.nodup_flatMap]
          refine ⟨fun child _ => ?_, ?_⟩
          · rw [childOutputs, List.nodup_append']
            refine ⟨?_, d.nodup_portIds child .output, fun p hp hp' => ?_⟩
            · split
              · exact ih
              · exact .nil
            · split at hp
              next => exact (mem_outputsBelow h hp).2.2 (mem_portIds_iff.mp hp').1
              next => cases hp
          · have hnodup := h.nodup id
            rw [hchildren] at hnodup
            refine hnodup.imp_of_mem fun {child other} hchild hother hne p hp hp' => ?_
            rw [← hchildren] at hchild hother
            refine below_disjoint h hchild hother hne
              (block_mem_below h (live_of_mem_children h hchild) hp)
              (block_mem_below h (live_of_mem_children h hother) hp')

theorem nodup_signalPorts (h : d.Rooted) : d.signalPorts.Nodup := by
  rw [signalPorts, List.nodup_append']
  refine ⟨nodup_outputsBelow h.tree, d.nodup_portIds d.root .output, fun p hp hp' => ?_⟩
  exact (mem_outputsBelow h.tree hp).2.2 (mem_portIds_iff.mp hp').1

/-- The signal ports are outputs. -/
theorem output_of_mem_signalPorts (h : d.Rooted) (hp : p ∈ d.signalPorts) :
    p.side = .output ∧ (d.port? p).isSome := by
  rcases List.mem_append.mp hp with hp | hp
  · exact (mem_portIds_iff.mp (mem_outputsBelow h.tree hp).1).2
  · exact (mem_portIds_iff.mp hp).2

theorem pathOf_root (d : Diagram α) : d.pathOf ⟨0⟩ = (nameAt d.place? ⟨0⟩).getD "" := by
  have htop : d.pathOf ⟨0⟩ = d.name := if_pos rfl
  have hname : d.name = ((d.block? ⟨0⟩).map Block.name).getD "" := by
    rw [name, show d.root = ⟨0⟩ from rfl]
    cases d.block? ⟨0⟩ <;> rfl
  rw [htop, hname, nameAt, place?, Option.map_map]
  rfl

/-- The path of a block stays the same while it is there. -/
theorem Thinned.pathOf_eq {start : Diagram α} (h : start.Thinned d) {x : BlockId}
    (hx : (d.block? x).isSome) : d.pathOf x = start.pathOf x := by
  by_cases hroot : x = ⟨0⟩
  · rw [hroot, pathOf_root, pathOf_root, h.name]
  · exact h.traced.path x hroot (block?_isSome_iff.mp hx)

/-- While composites are taken apart, with or without success, the blocks that are left keep their
paths and are found under them, and so are all signals, whose names are different. -/
theorem Built.lookup_flattened [Scalar α] {e : Editor α} (h : e.diagram.Built)
    (hplain : e.diagram.PlainNames)
    (hnames : AllBlocks (fun b => (b.outputs.map Port.name).Nodup) e.diagram)
    (flattens : List (BlockId × List String)) (hd : d = (flattenAll e flattens).diagram) :
    (∀ x, (d.block? x).isSome → d.pathOf x = e.diagram.pathOf x) ∧
      (∀ x, (d.block? x).isSome → x ≠ d.root → d.find (d.pathOf x) = .ok x) ∧
        (∀ p ∈ d.signalPorts, d.findPort (d.portPath p) = .ok p) ∧ d.signalNames.Nodup := by
  have hstart := h.wellFormed.rooted
  have hthinned : e.diagram.Thinned d := by
    rw [hd]
    exact (Thinned.refl h.wellFormed).flattenAll hstart hplain flattens
  have hfound : ∀ p ∈ d.signalPorts, d.findPort (d.portPath p) = .ok p := by
    intro p hp
    obtain ⟨hside, hlive⟩ := output_of_mem_signalPorts hthinned.rooted hp
    exact hthinned.findPort_portPath hstart hplain hlive hside hnames
  refine ⟨fun x hx => hthinned.pathOf_eq hx, fun x hx hroot => ?_, hfound, ?_⟩
  · exact hthinned.find_pathOf hstart hplain (block?_isSome_iff.mp hx) hroot
  · refine (nodup_signalPorts hthinned.rooted).map_on fun p hp q hq heq => ?_
    have hsame := hfound p hp
    rw [heq, hfound q hq] at hsame
    exact (Except.ok.inj hsame).symm

/-- A ring that drives itself stops the work halfway: the box before it has been taken apart, the
one behind it has not. Then the kept composite in the box is taken apart as well. -/
theorem lookup_flattened_halfway : ∃ (e : Editor Float) (d : Diagram Float), e.diagram.Built ∧
    e.diagram.PlainNames ∧ AllBlocks (fun b => (b.outputs.map Port.name).Nodup) e.diagram ∧
      (Edit.flatten ⟨0⟩ ["Keep"] e).answer? = none ∧
        d = (flattenAll e [(⟨0⟩, ["Keep"]), (⟨2⟩, [])]).diagram ∧
          d.signalNames = ["ring.gain.OUT1", "ring.OUT1", "last.neg.OUT1", "last.OUT1",
            "box.kept.deep.neg.OUT1", "box.kept.OUT1", "Y"] ∧
            (∀ x, (d.block? x).isSome → d.pathOf x = e.diagram.pathOf x) ∧
              (∀ x, (d.block? x).isSome → x ≠ d.root → d.find (d.pathOf x) = .ok x) ∧
                (∀ p ∈ d.signalPorts, d.findPort (d.portPath p) = .ok p) ∧ d.signalNames.Nodup := by
  let calls : List (DiagramCall Float) := [
    .addComposite ⟨0⟩ "box" "Box" ["IN1"] ["OUT1"],
    .addComposite ⟨1⟩ "kept" "Keep" ["IN1"] ["OUT1"],
    .addComposite ⟨2⟩ "deep" "Box" ["IN1"] ["OUT1"],
    .addBlock ⟨3⟩ "neg" .negator,
    .addComposite ⟨0⟩ "ring" "Ring" ["IN1"] ["OUT1"],
    .addBlock ⟨5⟩ "gain" (.gain 2),
    .addComposite ⟨0⟩ "last" "Box" ["IN1"] ["OUT1"],
    .addBlock ⟨7⟩ "neg" .negator,
    .connect ⟨5⟩ "IN1" "OUT1" none none,
    .connect ⟨0⟩ "ring" "ring" none none]
  let e := performAll { diagram := .empty "m" ["X"] ["Y"] } calls
  let d := (flattenAll e [(⟨0⟩, ["Keep"]), (⟨2⟩, [])]).diagram
  have hbuilt : e.diagram.Built := (Built.empty "m" ["X"] ["Y"]).performAll
    (e := { diagram := .empty "m" ["X"] ["Y"] }) (by simp [calls, DiagramCall.Allowed])
  have hplain : ∀ b? ∈ e.diagram.blocks.toList, ∀ b ∈ b?, Plain b.name ∧
      ∀ p ∈ b.inputs ++ b.outputs, Plain p.name := by decide +kernel
  have hnames : ∀ b? ∈ e.diagram.blocks.toList, ∀ b ∈ b?, (b.outputs.map Port.name).Nodup := by
    decide +kernel
  have hfails : (Edit.flatten ⟨0⟩ ["Keep"] e).answer? = none := by decide +kernel
  exact ⟨e, d, hbuilt, .of_mem hplain, .of_mem hnames, hfails, rfl, by decide +kernel,
    hbuilt.lookup_flattened (.of_mem hplain) (.of_mem hnames) _ rfl⟩

end CausalBlocks.Diagram
