import CausalBlocks.Proofs.Diagram.Alike
import CausalBlocks.Proofs.Scalar.Rational

/-!
# Valid models have dependencies

The check of a model follows every input of a primitive to where its signal arises, so
everything that a primitive needs is a node. It only asks of an output of the model that
following its links comes to an end. That end is no node if it is a port of a composite,
through which no signal arrives: such an output dangles, and then there are no
dependencies at any iteration.
-/

namespace CausalBlocks

variable {α : Type}

/-- What an operator needs arrives at one of its inputs. -/
theorem Operator.lt_length_of_mem_neededInputs {op : Operator α} {iteration index : Nat}
    (h : index ∈ op.neededInputs iteration) : index < op.inputNames.length := by
  cases op with
  | clock | composite => cases h
  | delay =>
      rw [neededInputs] at h
      split at h
      · rw [List.mem_singleton.mp h]
        exact Nat.lt_succ_self 1
      · cases h
  | _ => exact List.mem_range.mp h

theorem Operator.neededInputs_of_isClock {op : Operator α} (h : op.isClock = true)
    (iteration : Nat) : op.neededInputs iteration = [] := by
  cases op with
  | clock => rfl
  | _ => cases h

namespace Diagram

variable {d : Diagram α} {id : BlockId} {b : Block α} {p : PortId} {iteration index : Nat}

/-- A port where a signal arises belongs to a node. -/
theorem WellFormed.nodeOf_mem_nodes (h : d.WellFormed) (hp : d.Source p) :
    d.nodeOf p ∈ d.nodes := by
  have hmem := h.mem_nodeOutputs hp
  rw [nodeOf] at hmem ⊢
  have hcomputed := h.mem_computedPorts_iff.mpr hp
  rw [computedPorts, List.mem_append, List.mem_flatMap] at hcomputed
  rcases hcomputed with hinput | ⟨id, hid, houtput⟩
  · rw [if_pos (mem_portIds_iff.mp hinput).1]
    simp [nodes, hinput]
  · have hblock := (mem_portIds_iff.mp houtput).1
    have hbelow : p.block ≠ d.root := by
      rintro hroot
      exact h.root_notMem_primitives (hroot ▸ hblock ▸ hid)
    rw [if_neg hbelow, hblock]
    simp [nodes, hid]

/-! ### What the check tells -/

/-- An input of a primitive has a driver, unless it is a clock without links. -/
theorem driverOf_of_validate (h : d.validate = .ok ()) (hid : id ∈ d.primitives)
    (hb : d.block? id = some b) (hlinked : allowsOpenInputs b = false)
    (hindex : index < b.inputs.length) : ∃ driver, d.driverOf (.input id index) = .ok driver := by
  simp only [validate, Except.bind_eq_ok] at h
  obtain ⟨_, _, _, hinputs, _⟩ := h
  obtain ⟨_, hb', hcheck⟩ := Except.bind_eq_ok.mp (Except.forM_eq_ok hinputs id hid)
  cases hb.symm.trans (block_eq_ok.mp hb')
  rw [hlinked, if_neg Bool.false_ne_true] at hcheck
  exact Except.discard_eq_ok.mp (Except.forM_eq_ok hcheck index (List.mem_range.mpr hindex))

/-- The links behind an output of the model come to an end. -/
theorem prevClosure_of_validate (h : d.validate = .ok ()) (hp : p ∈ d.portIds d.root .output) :
    ∃ last, d.prevClosure p = .ok last := by
  simp only [validate, Except.bind_eq_ok] at h
  obtain ⟨_, _, _, _, houtputs⟩ := h
  exact Except.discard_eq_ok.mp (Except.forM_eq_ok houtputs p hp)

/-- Everything that a primitive needs has a driver. -/
theorem driverOf_needed (h : d.validate = .ok ()) (hported : d.Ported) (hid : id ∈ d.primitives)
    (hprimitive : d.isComposite id = false) (hb : d.block? id = some b)
    (hneeded : index ∈ b.operator.neededInputs iteration) :
    ∃ driver, d.driverOf (.input id index) = .ok driver := by
  rw [isComposite, hb] at hprimitive
  have hnames : b.inputs.length = b.operator.inputNames.length := by
    rw [← hported id b hb hprimitive, List.length_map]
  refine driverOf_of_validate h hid hb ?_ ?_
  · -- a clock needs nothing, linked or not
    rw [allowsOpenInputs, Bool.and_eq_false_iff]
    refine .inl (Bool.eq_false_iff.mpr fun hclock => ?_)
    rw [Operator.neededInputs_of_isClock hclock] at hneeded
    cases hneeded
  · rw [hnames]
    exact Operator.lt_length_of_mem_neededInputs hneeded

/-! ### Outputs without a signal -/

/-- An output of the model is linked, but to a composite through which no signal arrives. -/
def Dangles (d : Diagram α) (output : PortId) : Prop :=
  ∃ last, d.prevClosure output = .ok last ∧ last ≠ output ∧ d.isSource last = false

/-- Dependencies say of every output of the model where its signal arises. -/
theorem WellFormed.not_dangles_of_dependencies (hd : d.WellFormed) {g : DependencyGraph}
    (h : d.dependencies iteration = .ok g) (hp : p ∈ d.portIds d.root .output) :
    ¬d.Dangles p := by
  rintro ⟨last, hlast, hne, hsource⟩
  obtain ⟨last', hlast', hnode⟩ := (resolved_of_dependencies h).outputs p hp
  cases hlast.symm.trans hlast'
  have hends := (hd.prevClosure_eq_ok_iff (mem_portIds_iff.mp hp).2.2).mp hlast
  obtain ⟨q, hq⟩ := hends.drives hne
  have harises := (hd.source_of_drives hq (hnode.resolve_left hne)).2
  exact absurd (harises.symm.trans hsource) (by simp)

/-- Everything that a valid model needs is a node, if no output dangles. -/
theorem WellFormed.resolved_of_validate (hd : d.WellFormed) (hported : d.Ported)
    (h : d.validate = .ok ()) (houtputs : ∀ p ∈ d.portIds d.root .output, ¬d.Dangles p)
    (iteration : Nat) : d.Resolved iteration := by
  constructor
  · intro id hid
    obtain ⟨hlive, hprimitive⟩ := hd.mem_primitives_iff.mp hid
    obtain ⟨b, hb⟩ := Option.isSome_iff_exists.mp hlive
    refine ⟨b, hb, fun index hneeded => ?_⟩
    obtain ⟨driver, hdriver⟩ := driverOf_needed h hported hid hprimitive hb hneeded
    exact ⟨driver, hdriver, hd.nodeOf_mem_nodes (hd.source_of_driverOf rfl hdriver).2.2⟩
  · intro p hp
    obtain ⟨last, hlast⟩ := prevClosure_of_validate h hp
    have hlive := (mem_portIds_iff.mp hp).2.2
    refine ⟨last, hlast, Classical.or_iff_not_imp_left.mpr fun hne => ?_⟩
    have hends := (hd.prevClosure_eq_ok_iff hlive).mp hlast
    refine hd.nodeOf_mem_nodes ⟨hd.live_of_ends hends hlive, ?_⟩
    exact Bool.of_not_eq_false fun hsource => houtputs p hp ⟨last, hlast, hne, hsource⟩

/-- A valid model has dependencies at an iteration exactly if none of its outputs dangles. -/
theorem Built.dependencies_iff [Scalar α] (hbuilt : d.Built) (hvalid : d.validate = .ok ())
    (iteration : Nat) : (∃ g, d.dependencies iteration = .ok g) ↔
      ∀ p ∈ d.portIds d.root .output, ¬d.Dangles p := by
  have hd := hbuilt.wellFormed
  constructor
  · rintro ⟨g, hg⟩ p hp
    exact hd.not_dangles_of_dependencies hg hp
  · intro houtputs
    exact (hd.resolved_of_validate hbuilt.ported hvalid houtputs iteration).exists_dependencies
      hd.nodup_nodes

/-- A model with one output, fed by a composite that forwards what drives its own input. -/
def forwarding (rest : List (DiagramCall ℚ)) : Diagram ℚ :=
  (performAll { diagram := .empty "m" [] ["y"] } <|
    [.addBlock ⟨0⟩ "k" (.clock 0 1), .addComposite ⟨0⟩ "box" "Box" ["IN1"] ["OUT1"],
      .connect ⟨2⟩ "IN1" "OUT1" none none, .connect ⟨0⟩ "box" "y" none none] ++ rest).diagram

theorem forwarding_built {rest : List (DiagramCall ℚ)}
    (h : ∀ call ∈ rest, ∀ e, call.Allowed e) : (forwarding rest).Built := by
  refine .performAll (.empty "m" [] ["y"]) fun call hcall e => ?_
  rcases List.mem_append.mp hcall with hfirst | hrest
  · simp only [List.mem_cons, List.not_mem_nil, or_false] at hfirst
    obtain rfl | rfl | rfl | rfl := hfirst <;> exact trivial
  · exact h call hrest e

/-- Where a constant drives the composite, there are dependencies. -/
theorem dependencies_forwarding_driven : ∃ d : Diagram ℚ, d.Built ∧ d.validate = .ok () ∧
    ∀ iteration, ∃ g, d.dependencies iteration = .ok g := by
  let d := forwarding [.addBlock ⟨0⟩ "c" (.constant 1), .connect ⟨0⟩ "c" "box" none none]
  have hbuilt : d.Built := forwarding_built fun call hcall e => by
    simp only [List.mem_cons, List.not_mem_nil, or_false] at hcall
    obtain rfl | rfl := hcall <;> exact trivial
  have hvalid : d.validate = .ok () := Except.eq_ok_of_toOption (by decide +kernel)
  have hports : d.portIds d.root .output = [.output d.root 0] := by decide +kernel
  have hsource : d.prevClosure (.output d.root 0) = .ok (.output ⟨3⟩ 0) :=
    Except.eq_ok_of_toOption (by decide +kernel)
  refine ⟨d, hbuilt, hvalid, fun iteration => (hbuilt.dependencies_iff hvalid iteration).mpr ?_⟩
  rintro p hp ⟨last, hlast, _, hdangling⟩
  rw [hports, List.mem_singleton] at hp
  rw [hp, hsource, Except.ok.injEq] at hlast
  rw [← hlast] at hdangling
  exact absurd hdangling (by decide +kernel)

/-- Where nothing drives the composite, the model is valid, but has no dependencies. -/
theorem no_dependencies_forwarding_undriven : ∃ d : Diagram ℚ, d.Built ∧ d.validate = .ok () ∧
    ∀ iteration g, d.dependencies iteration ≠ .ok g := by
  let d := forwarding []
  have hnone : ∀ iteration ≤ 1, (d.dependencies iteration).toOption.isNone = true := by
    decide +kernel
  have hbuilt : d.Built := forwarding_built fun call hcall => absurd hcall List.not_mem_nil
  have hvalid : d.validate = .ok () := Except.eq_ok_of_toOption (by decide +kernel)
  refine ⟨d, hbuilt, hvalid, fun iteration g hg => ?_⟩
  -- from the second iteration on the needs stay the same
  obtain ⟨first, hfirst, hsame⟩ : ∃ first ≤ 1, d.dependencies iteration = d.dependencies first := by
    cases iteration with
    | zero => exact ⟨0, Nat.zero_le 1, rfl⟩
    | succ iteration => exact ⟨1, le_rfl, dependencies_succ d iteration⟩
  have hmissing := hnone first hfirst
  rw [← hsame, hg] at hmissing
  cases hmissing

end Diagram

end CausalBlocks
