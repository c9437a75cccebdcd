import CausalBlocks.Proofs.Diagram.Alike
import CausalBlocks.Proofs.Scalar.Rational

/-!
# Dependencies of flat diagrams

Where no composite but the model itself is left, what drives an input of a primitive is what it is
linked to. So links read off directly and links followed backward make the same graph, or fail in
the same way. Flattening makes such a diagram, with the dependencies that there were through the
composites.
-/

namespace CausalBlocks.Diagram

variable {α : Type} {d d' : Diagram α} {id : BlockId} {p q source : PortId} {iteration : Nat}

/-- The dependencies of a block, put into a graph, with a way to find what drives an input. -/
def addInputsWith (d : Diagram α) (iteration : Nat) (driver : PortId → Except (Failure α) PortId)
    (g : DependencyGraph) (id : BlockId) : Except (Failure α) DependencyGraph := do
  (← d.neededInputs id iteration).foldlM (fun (g : DependencyGraph) input => do
    g.setDependency (.block id) (d.nodeOf (← driver input))) g

theorem dependenciesWith_eq (d : Diagram α) (iteration : Nat)
    (driver : PortId → Except (Failure α) PortId) : d.dependenciesWith iteration driver = (do
      let g ← d.nodes.foldlM DependencyGraph.addMember .empty
      let g ← d.primitives.foldlM (d.addInputsWith iteration driver) g
      (d.portIds d.root .output).foldlM d.addOutput g) := rfl

/-- Whatever finds the same drivers makes the same dependencies. -/
theorem dependenciesWith_congr {driver driver' : PortId → Except (Failure α) PortId}
    (h : ∀ id ∈ d.primitives, ∀ index, driver (.input id index) = driver' (.input id index)) :
    d.dependenciesWith iteration driver = d.dependenciesWith iteration driver' := by
  have hblock : ∀ id ∈ d.primitives, ∀ g,
      d.addInputsWith iteration driver g id = d.addInputsWith iteration driver' g id := by
    intro id hid g
    rw [addInputsWith, addInputsWith]
    cases hinputs : d.neededInputs id iteration with
    | error failure => rfl
    | ok inputs =>
        obtain ⟨b, _, rfl⟩ := neededInputs_eq_ok.mp hinputs
        refine Except.foldlM_congr fun input hinput g => ?_
        obtain ⟨index, _, rfl⟩ := List.mem_map.mp hinput
        rw [h id hid index]
  have hblocks : ∀ g, d.primitives.foldlM (d.addInputsWith iteration driver) g =
      d.primitives.foldlM (d.addInputsWith iteration driver') g := fun g =>
    Except.foldlM_congr hblock
  simp only [dependenciesWith_eq, hblocks]

/-- No composite but the model itself. -/
def Flat (d : Diagram α) : Prop := ∀ id, id ≠ d.root → d.isComposite id = false

theorem Flat.flatDependencies (h : d.Flat) (iteration : Nat) :
    d.flatDependencies iteration = d.dependenciesWith iteration d.directDriver := by
  have hnone : (d.blockIds.find? fun id => id ≠ d.root && d.isComposite id) = none := by
    refine List.find?_eq_none.mpr fun id _ => ?_
    by_cases hroot : id = d.root
    · simp [hroot]
    · simp [h id hroot]
  rw [Diagram.flatDependencies, hnone]

/-- That there is no other composite can be found out block by block. -/
theorem flat_of_blockIds (h : ∀ id ∈ d.blockIds, id ≠ d.root → d.isComposite id = false) : d.Flat := by
  intro id hroot
  cases hb : d.block? id with
  | none => rw [isComposite, hb]
  | some b =>
      refine h id ?_ hroot
      rw [blockIds, List.mem_filter, hb]
      exact ⟨List.mem_map.mpr ⟨id.index, List.mem_range.mpr (lt_size_of_block? hb), rfl⟩, rfl⟩

/-- Nothing is kept, so nothing but the model is still a composite. -/
theorem Flattened.flat (h : d.Flattened [] d') : d'.Flat := by
  intro id hroot
  by_cases hlive : (d'.block? id).isSome
  · rw [h.isComposite_eq hlive]
    obtain hprimitive | htop | ⟨_, _, _, _, _, _, hkept⟩ := ((h.live id).mp hlive).2
    · exact hprimitive
    · exact absurd htop hroot
    · cases hkept
  · rw [isComposite, Option.not_isSome_iff_eq_none.mp hlive]

namespace WellFormed

variable (h : d.WellFormed)
include h

/-- In a flat diagram only what carries a signal drives anything. -/
theorem source_of_flat (hflat : d.Flat) (hdrives : d.incoming q = some p) : d.Source p := by
  have hlive := (h.live_of_incoming hdrives).1
  refine h.source_of_drives hdrives ?_
  rw [nodeOf]
  split
  next hroot =>
    have hmem : p ∈ d.portIds d.root p.side := mem_portIds_iff.mpr ⟨hroot, rfl, hlive⟩
    cases hside : p.side with
    | input => simp [nodes, hside ▸ hmem]
    | output => simp [nodes, hside ▸ hmem]
  next hroot =>
    have hmem : p.block ∈ d.primitives :=
      h.mem_primitives_iff.mpr ⟨isSome_block?_of_port? hlive, hflat _ hroot⟩
    simp [nodes, hmem]

/-- What drives an input of a primitive of a flat diagram is what it is linked to. -/
theorem directDriver_eq (hflat : d.Flat) (hid : id ∈ d.primitives) (index : Nat) :
    d.directDriver (.input id index) = d.driverOf (.input id index) := by
  cases hport : d.port? (.input id index) with
  | none =>
      have hon : d.endsAt (.input id index) = .ok false := rfl
      cases hmissing : d.port (.input id index) with
      | ok port => cases hport.symm.trans (port_eq_ok.mp hmissing)
      | error failure =>
          rw [directDriver, driverOf, prevClosure, driverFrom_missing List.not_mem_nil hon hport,
            hmissing]
          rfl
  | some port =>
      have hlive : (d.port? (.input id index)).isSome := Option.isSome_of_mem hport
      have hincoming := incoming_eq hport
      cases hlinked : port.incoming with
      | none =>
          rw [hlinked] at hincoming
          have hself : d.prevClosure (.input id index) = .ok (.input id index) :=
            (h.prevClosure_eq_ok_iff hlive).mpr (.here hincoming)
          have hbelow : d.isSource (.input id index) = false :=
            decide_eq_false fun hroot => h.root_notMem_primitives (hroot ▸ hid)
          rw [driverOf_eq ⟨_, hself⟩ hport, source?, hself, directDriver, port_eq hport]
          simp only [bind, Except.bind, hlinked, hbelow]
          rfl
      | some source =>
          rw [hlinked] at hincoming
          have harises := h.source_of_flat hflat hincoming
          have hends : Ends d.incoming (.input id index) source :=
            .back hincoming (.here (h.undriven_of_isSource harises.2))
          have hsource := (h.source?_eq_some_iff hlive).mpr ⟨hends, harises⟩
          have hclosed := (h.prevClosure_eq_ok_iff hlive).mpr hends
          rw [driverOf_eq ⟨_, hclosed⟩ hport, hsource, directDriver, port_eq hport]
          simp only [bind, Except.bind, hlinked]
          rfl

theorem flatDependencies_eq (hflat : d.Flat) (iteration : Nat) :
    d.flatDependencies iteration = d.dependencies iteration := by
  rw [hflat.flatDependencies, dependencies]
  exact dependenciesWith_congr fun id hid index => h.directDriver_eq hflat hid index

end WellFormed

/-- The dependencies of a flat diagram can be read off its links, and those of any other one, if it
has any, off the links that are left after flattening: they have the same members, and the same
members need each other. -/
theorem dependencies_flat_and_flattened [Scalar α] (d : Diagram α) (hbuilt : d.Built)
    (iteration : Nat) :
    (d.Flat → d.flatDependencies iteration = d.dependencies iteration) ∧
    (d.PlainNames → (∀ p, (d.port? p).isSome → ∃ last, d.prevClosure p = .ok last) →
      ∀ g, d.dependencies iteration = .ok g →
        ∃ d' g', d.flattened [] = .ok d' ∧ d'.dependencies iteration = .ok g' ∧
          d'.flatDependencies iteration = .ok g' ∧ g'.SameNeeds g) := by
  have hd := hbuilt.wellFormed
  refine ⟨fun hflat => hd.flatDependencies_eq hflat iteration, fun hplain hclosed g hg => ?_⟩
  obtain ⟨d', hok, hflattened, hd', _⟩ := hd.flattened_ok hclosed hplain []
  obtain ⟨g', hg', hsame⟩ := (hflattened.alike hd hd').exists_dependencies hd hd' hg
  refine ⟨d', g', hok, hg', ?_, hsame⟩
  rw [hd'.flatDependencies_eq hflattened.flat, hg']

/-- An integrator in a box, and a negator that nothing drives. -/
theorem dependencies_boxed_and_undriven : ∃ boxed undriven : Diagram ℚ, boxed.Built ∧
    boxed.PlainNames ∧ (∀ p, (boxed.port? p).isSome → ∃ last, boxed.prevClosure p = .ok last) ∧
    (∃ g d' g', boxed.dependencies 0 = .ok g ∧ boxed.flattened [] = .ok d' ∧
      d'.dependencies 0 = .ok g' ∧ d'.flatDependencies 0 = .ok g' ∧ g'.SameNeeds g) ∧
    undriven.Built ∧ undriven.Flat ∧ undriven.flatDependencies 0 = undriven.dependencies 0 ∧
      (undriven.dependencies 0).toOption = none := by
  let calls : List (DiagramCall ℚ) := [
    .addComposite ⟨0⟩ "box" "Box" ["IN1"] ["OUT1"],
    .addIntegrator ⟨1⟩ "int",
    .addBlock ⟨1⟩ "c" (.constant 3),
    .connect ⟨1⟩ "IN1" "int" none (some "IN1"),
    .connect ⟨1⟩ "c" "int" none (some "IC"),
    .connect ⟨1⟩ "int" "OUT1" none none,
    .connect ⟨0⟩ "X" "box" none none,
    .connect ⟨0⟩ "box" "Y" none none]
  let boxed := (performAll { diagram := .empty "m" ["X"] ["Y"] } calls).diagram
  let undriven := (performAll { diagram := .empty "m" [] [] }
    [.addBlock ⟨0⟩ "neg" (.negator : Operator ℚ)]).diagram
  have hboxed : boxed.Built := (Built.empty "m" ["X"] ["Y"]).performAll
    (e := { diagram := .empty "m" ["X"] ["Y"] }) (by simp [calls, DiagramCall.Allowed])
  have hundriven : undriven.Built := (Built.empty "m" [] []).performAll
    (e := { diagram := .empty "m" [] [] }) (by simp [DiagramCall.Allowed])
  have hplain : ∀ b? ∈ boxed.blocks.toList, ∀ b ∈ b?, Plain b.name ∧
      ∀ p ∈ b.inputs ++ b.outputs, Plain p.name := by decide +kernel
  have hclosed : ∀ p ∈ boxed.allPorts, (boxed.prevClosure p).toOption.isSome := by decide +kernel
  have hflat : ∀ id ∈ undriven.blockIds, id ≠ undriven.root → undriven.isComposite id = false := by
    decide +kernel
  have hsome : (boxed.dependencies 0).toOption.isSome := by decide +kernel
  obtain ⟨g, hg⟩ := Option.isSome_iff_exists.mp hsome
  have hg := Except.eq_ok_of_toOption hg
  obtain ⟨d', g', hd', hg', hdirect, hsame⟩ := (dependencies_flat_and_flattened boxed hboxed 0).2
    (.of_mem hplain) (closed_of_allPorts hclosed) g hg
  exact ⟨boxed, undriven, hboxed, .of_mem hplain, closed_of_allPorts hclosed,
    ⟨g, d', g', hg, hd', hg', hdirect, hsame⟩, hundriven, flat_of_blockIds hflat,
    (dependencies_flat_and_flattened undriven hundriven 0).1 (flat_of_blockIds hflat),
    by decide +kernel⟩

end CausalBlocks.Diagram
