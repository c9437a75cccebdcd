import CausalBlocks.Proofs.Block.Failing
import CausalBlocks.Proofs.Loop.Equations

/-!
# How loops fail

A loop reads what its blocks need from outside. Where that can be read, it fails only because its
equations are not linear or have no unique solution.
-/

namespace CausalBlocks

theorem Operator.neededInputs_adder {α : Type} (inputs iteration : Nat) :
    (adder inputs : Operator α).neededInputs iteration = List.range inputs :=
  congrArg List.range (length_numbered _ _)

theorem Operator.neededInputs_product {α : Type} (inputs iteration : Nat) :
    (product inputs : Operator α).neededInputs iteration = List.range inputs :=
  congrArg List.range (length_numbered _ _)

namespace Diagram

variable {α : Type} {d : Diagram α} {group : List BlockId} {iteration : Nat} {id : BlockId}
  {b : Block α}

/-- The output of a block of a group is one of the unknowns. -/
theorem memberAt?_ne_none {port : PortId} (hside : port.side = .output)
    (hblock : port.block ∈ group) : memberAt? group port ≠ none := by
  rw [memberAt?, hside]
  exact fun hnone => notMem_of_memberIndex? hnone hblock

/-- A block of a loop has its ports, and each input that it needs is driven by a block of the loop
or can be read. -/
structure Supplied (d : Diagram α) (group : List BlockId) (iteration : Nat) (id : BlockId)
    (b : Block α) : Prop where
  block : d.block? id = some b
  ported : b.Ported
  drivers : ∀ port ∈ b.operator.neededInputs iteration, ∃ driver,
    d.driverOf (.input id port) = .ok driver ∧
      (memberAt? group driver = none → ∃ x, d.inputSample id port iteration = .ok x)

namespace Supplied

variable (h : d.Supplied group iteration id b)
include h

theorem operand_total {port : Nat} (hport : port ∈ b.operator.neededInputs iteration) :
    ∃ o, d.operand group id iteration port = .ok o := by
  obtain ⟨driver, hdriver, hread⟩ := h.drivers port hport
  cases hmember : memberAt? group driver with
  | some member =>
      refine ⟨.unknown member, Except.bind_eq_ok.mpr ⟨driver, hdriver, ?_⟩⟩
      rw [hmember]
      rfl
  | none =>
      obtain ⟨x, hx⟩ := hread hmember
      refine ⟨.known x.value, Except.bind_eq_ok.mpr ⟨driver, hdriver, ?_⟩⟩
      rw [hmember]
      exact Except.bind_eq_ok.mpr ⟨x, hx, rfl⟩

/-- The inputs of an operator that reads them all at once. -/
theorem operand_failsOnly {inputs : Nat}
    (hneeded : b.operator.neededInputs iteration = List.range inputs) :
    ∀ port ∈ List.range inputs, (d.operand group id iteration port).FailsOnly Failure.Computational :=
  fun _ hport => .of_exists (h.operand_total (hneeded ▸ hport))

/-- Whether the equation of a block is linear can be found out. -/
theorem isLinearIn_failsOnly :
    (d.isLinearIn group iteration id b.operator).FailsOnly Failure.Computational := by
  have hdrivers := h.drivers
  cases hoperator : b.operator with
  | product inputs =>
      rw [hoperator, Operator.neededInputs_product] at hdrivers
      refine .bind (.mapM fun port hport => ?_) fun _ _ => .ok _
      obtain ⟨driver, hdriver, _⟩ := hdrivers port hport
      exact .of_exists ⟨driver, hdriver⟩
  | _ => exact .ok _

/-- A block either has a linear equation, which can be entered, or it has none. -/
theorem addEquation_failsOnly [Scalar α] {row : Fin group.length} (hrow : group.get row = id)
    (s : LinearSystem α group.length) :
    (d.addEquation group iteration s row).FailsOnly Failure.Computational := by
  subst hrow
  refine .bind (.of_exists ⟨b, block_eq h.block⟩) fun b' hb' => ?_
  cases (block_eq h.block).symm.trans hb'
  have hported := h.ported
  have hall (inputs : Nat) : b.operator.neededInputs iteration = List.range inputs → _ :=
    h.operand_failsOnly
  have hcondition : 1 ∈ b.operator.neededInputs iteration →
      ∃ o, d.operand group (group.get row) iteration 1 = .ok o := h.operand_total
  cases hoperator : b.operator with
  | adder inputs =>
      refine .foldlM (fun port hport s => ?_) _
      refine .bind (hall inputs ?_ port hport) fun _ _ => .ok _
      rw [hoperator, Operator.neededInputs_adder]
  | product inputs =>
      refine .bind (.mapM (hall inputs ?_)) fun factors _ => ?_
      · rw [hoperator, Operator.neededInputs_product]
      · dsimp only
        split <;> exact .ok _
  | negator =>
      refine .bind (hall 1 ?_ 0 (List.mem_range.mpr Nat.zero_lt_one)) fun operand _ => ?_
      · rw [hoperator]
        rfl
      · cases operand <;> exact .ok _
  | delay =>
      dsimp only
      rw [inputIndex?_initialCondition hported hoperator]
      by_cases hfirst : iteration = 0
      · rw [if_pos hfirst]
        refine .bind (.of_exists (hcondition ?_)) fun _ _ => .ok _
        rw [hoperator, Operator.neededInputs, if_pos hfirst]
        exact List.mem_singleton_self 1
      · rw [if_neg hfirst]
        exact .error (.nonLinearLoop _ _)
  | _ => exact .error (.nonLinearLoop _ _)

end Supplied

/-- A loop whose blocks are supplied fails only over its equations. -/
theorem solveLoop_failsOnly [Scalar α] (h : ∀ id ∈ group, ∃ b, d.Supplied group iteration id b) :
    (d.solveLoop group iteration).FailsOnly Failure.Computational := by
  have hcheck : (d.checkLoop group iteration).FailsOnly Failure.Computational := by
    refine .forM fun id hid => ?_
    obtain ⟨b, hb⟩ := h id hid
    refine .bind (.of_exists ⟨b, block_eq hb.block⟩) fun b' hb' => ?_
    cases (block_eq hb.block).symm.trans hb'
    exact hb.isLinearIn_failsOnly.bind fun _ _ => .ite (.ok _) (.error (.nonLinearLoop _ _))
  have hsystem : (d.loopSystem group iteration).FailsOnly Failure.Computational := by
    refine .foldlM (fun row _ s => ?_) _
    obtain ⟨b, hb⟩ := h (group.get row) (List.get_mem _ _)
    exact hb.addEquation_failsOnly rfl s
  refine hcheck.bind fun _ _ => hsystem.bind fun s _ => ?_
  split
  · exact .ok _
  · exact .error (.singularLoop _ _)

end Diagram

end CausalBlocks
