import CausalBlocks.Block.Compute
import CausalBlocks.Proofs.Outcome

/-!
# What operators compute

An operator computes one value for each of its outputs. What it computes depends
only on the answers that its reader gave, so that a reader that can answer more
leads to the same values.
-/

namespace CausalBlocks.Operator

variable {α : Type} [Scalar α] {op : Operator α} {block : String} {tick : Tick α}
  {read read' : Reader α}

theorem length_numbered (stem : String) (count : Nat) : (numbered stem count).length = count := by
  rw [numbered, List.length_map, List.length_range]

/-- There is a value for each output. -/
theorem compute_ensures_length :
    (op.compute block tick read).Ensures fun values => values.length = op.outputNames.length := by
  have hone : ∀ x : Except (Failure α) α, Except.Ensures (fun values => values.length = 1)
      (do return [← x] : Except (Failure α) (List α)) := fun x => .bind fun _ => .ok rfl
  cases op with
  | composite type => exact .error _
  | clock | time | constant | step => exact .ok rfl
  | split outputs =>
      refine .bind fun x => .ok ?_
      rw [List.length_replicate, outputNames, length_numbered]
  | log message severity =>
      refine .bind fun x => ?_
      split
      · exact .ok rfl
      · exact .error _
  | sequence | delay => exact hone _
  | inverter | function => exact .bind fun x => hone _
  | multiplexer | modulo | root => exact .bind fun x => .bind fun y => hone _
  | power | lessThan | atMost | equals => exact .bind fun x => .bind fun y => .ok rfl
  | clamp bounds =>
      cases bounds with
      | none => exact .bind fun x => .bind fun low => .bind fun high => .ok rfl
      | some bounds => exact .bind fun x => .ok rfl
  | _ => exact .bind fun x => .ok rfl

omit [Scalar α] in
/-- An operator needs all its inputs at once, but for a delay and those that compute without
reading. -/
theorem neededInputs_eq (op : Operator α) (iteration : Nat) :
    op.neededInputs iteration = List.range op.inputNames.length ∨ op = .delay ∨ op.isClock = true ∨
      op.isComposite = true := by
  cases op <;> simp [neededInputs, isClock, isComposite]

omit [Scalar α] in
theorem one_refines {x y : Except (Failure α) α} (h : x.Refines y) :
    Except.Refines (do return [← x] : Except (Failure α) (List α)) (do return [← y]) :=
  .bind h fun _ => .refl _

/-- A reader that answers as much of what matters leads to the same values: at the iteration
itself only the needed inputs matter. -/
theorem compute_refines_of_needed
    (hnow : ∀ port, port ∈ op.neededInputs tick.iteration ∨ op.inputNames.length ≤ port →
      (read port tick.iteration).Refines (read' port tick.iteration))
    (hpast : ∀ port iteration, iteration < tick.iteration →
      (read port iteration).Refines (read' port iteration)) :
    (op.compute block tick read).Refines (op.compute block tick read') := by
  rcases op.neededInputs_eq tick.iteration with hneeded | rfl | hclock | hcomposite
  · have h : ∀ port, (read port tick.iteration).Refines (read' port tick.iteration) := by
      intro port
      refine hnow port ((Nat.lt_or_ge port op.inputNames.length).imp_left fun hlt => ?_)
      rw [hneeded]
      exact List.mem_range.mpr hlt
    have hall : ∀ count, Except.Refines ((List.range count).mapM fun port => read port tick.iteration)
        ((List.range count).mapM fun port => read' port tick.iteration) := fun count => .mapM h _
    cases op with
    | composite | clock | time | constant | step | sequence => exact .refl _
    | adder | product | minimum | maximum | or | and => exact .bind (hall _) fun _ => .refl _
    | modulo | root | power | lessThan | atMost | equals =>
        exact .bind (h 0) fun x => .bind (h 1) fun y => .refl _
    | delay =>
        -- a delay never needs both its inputs
        have hlength := congrArg List.length hneeded
        rw [neededInputs] at hlength
        split at hlength <;> cases hlength
    | clamp bounds =>
        cases bounds with
        | none => exact .bind (h 0) fun x => .bind (h 1) fun low => .bind (h 2) fun high => .refl _
        | some bounds => exact .bind (h 0) fun x => .refl _
    | multiplexer =>
        exact .bind (h 0) fun selector => .bind (.refl _) fun port => one_refines (h port)
    | _ => exact .bind (h 0) fun x => .refl _
  · refine one_refines ?_
    split
    next hfirst =>
      have hinput := hnow 1 (.inl (by rw [neededInputs, if_pos hfirst]; exact List.mem_cons_self))
      rwa [hfirst] at hinput
    next hlater => exact hpast 0 _ (by omega)
  · cases op <;> first
      | exact .refl _
      | cases hclock
  · cases op <;> first
      | exact .refl _
      | cases hcomposite

/-- A reader that answers at least as much leads to the same values. -/
theorem compute_refines (h : ∀ port iteration, (read port iteration).Refines (read' port iteration)) :
    (op.compute block tick read).Refines (op.compute block tick read') :=
  compute_refines_of_needed (fun port _ => h port _) fun port iteration _ => h port iteration

/-! ### Operators without memory -/

omit [Scalar α] in
/-- Whether the outputs of an operator follow from what its inputs carry at the same iteration,
whatever the iteration. -/
def isStateless (op : Operator α) : Bool :=
  match op with
  | composite _ | clock .. | time | sequence _ | step _ | delay | log .. => false
  | _ => true

/-- An output of an operator whose inputs carry given values. -/
def output (op : Operator α) (index : Nat) (inputs : Nat → α) : α :=
  match op.compute "" ⟨0, 0, 0, 0⟩ fun port _ => .ok (inputs port) with
  | .ok values => values.getD index 0
  | .error _ => 0

/-- Without memory neither the iteration nor the place of the block matters. -/
theorem compute_refines_of_stateless {inputs : Nat → α} (hop : op.isStateless = true)
    (hread : ∀ port value, read port tick.iteration = .ok value → inputs port = value) :
    (op.compute block tick read).Refines
      (op.compute "" ⟨0, 0, 0, 0⟩ fun port _ => .ok (inputs port)) := by
  have h : ∀ port, (read port tick.iteration).Refines (.ok (inputs port)) := by
    intro port value hvalue
    rw [hread port value hvalue]
  have hall : ∀ count, Except.Refines ((List.range count).mapM fun port => read port tick.iteration)
      ((List.range count).mapM fun port => .ok (inputs port)) := fun count => .mapM h _
  cases op with
  | composite | clock | time | sequence | step | delay | log => cases hop
  | constant => exact .refl _
  | adder | product | minimum | maximum | or | and => exact .bind (hall _) fun _ => .refl _
  | power | lessThan | atMost | equals => exact .bind (h 0) fun x => .bind (h 1) fun y => .refl _
  | clamp bounds =>
      cases bounds with
      | none => exact .bind (h 0) fun x => .bind (h 1) fun low => .bind (h 2) fun high => .refl _
      | some bounds => exact .bind (h 0) fun x => .refl _
  | inverter => exact .bind (h 0) fun x => one_refines (.ite (.error _ _) (.refl _))
  | modulo =>
      exact .bind (h 0) fun x => .bind (h 1) fun y => one_refines (.ite (.error _ _) (.refl _))
  | root =>
      exact .bind (h 0) fun x => .bind (h 1) fun degree =>
        one_refines (.ite (.error _ _) (.ite (.refl _) (.error _ _)))
  | function f =>
      exact .bind (h 0) fun x =>
        one_refines (.ite (.error _ _) (.ite (.error _ _) (.refl _)))
  | multiplexer =>
      exact .bind (h 0) fun selector =>
        .bind (.ite (.refl _) (.error _ _)) fun port => one_refines (h port)
  | _ => exact .bind (h 0) fun x => .refl _

/-- What an operator without memory computes is a function of its inputs. -/
theorem output_eq {inputs : Nat → α} {values : List α} {index : Nat} {value : α}
    (hop : op.isStateless = true) (hvalues : op.compute block tick read = .ok values)
    (hread : ∀ port value, read port tick.iteration = .ok value → inputs port = value)
    (hvalue : values[index]? = some value) : op.output index inputs = value := by
  rw [output, compute_refines_of_stateless hop hread values hvalues]
  dsimp only
  rw [List.getD_eq_getElem?_getD, hvalue, Option.getD_some]

end CausalBlocks.Operator
