import CausalBlocks.Proofs.Block.Compute
import CausalBlocks.Proofs.Failing
import CausalBlocks.Proofs.Scalar.Exact

/-!
# How operators fail

An operator that can read the inputs it needs fails over their values, over the values that it was
made with, or because it was told to report. It never misses anything.
-/

namespace CausalBlocks

variable {α : Type}

/-- The failures of computing with values: a block cannot work with one, has none to give, or
reports, or a loop has equations that are not linear or have no unique solution. All others are
about what is missing or put together wrongly. -/
inductive Failure.Computational : Failure α → Prop
  | divisionByZero (block : String) : Computational (.divisionByZero block)
  | selectorOutOfRange (block : String) (selector : α) :
      Computational (.selectorOutOfRange block selector)
  | undefinedRoot (block : String) (degree radicand : α) :
      Computational (.undefinedRoot block degree radicand)
  | outsideDomain (block function : String) (input : α) :
      Computational (.outsideDomain block function input)
  | emptySequence (block : String) : Computational (.invalidParameter block .emptySequence)
  | reported (block : String) (time : α) (message : String) :
      Computational (.reported block time message)
  | nonLinearLoop (path type : String) : Computational (.nonLinearLoop path type)
  | singularLoop (blocks : String) (reason : Singularity) :
      Computational (.singularLoop blocks reason)

variable [Scalar α]

/-- No number up to a count counts for more. The doubles are like that up to 2^53. -/
def Scalar.CountsTo (α : Type) [Scalar α] (count : Nat) : Prop :=
  ∀ x : α, x ≤ (count : α) → Scalar.toCount x ≤ count

/-- Exact numbers count to any number. -/
theorem Exact.countsTo [Exact α] (count : Nat) : Scalar.CountsTo α count := by
  intro x hx
  rw [le_iff, value_natCast] at hx
  rw [toCount_eq]
  have hfloor : ⌊value x⌋ ≤ (count : ℤ) := by
    exact_mod_cast (Int.floor_le (value x)).trans hx
  omega

/-- The inputs of a multiplexer can be counted. -/
def Operator.Countable (op : Operator α) : Prop :=
  ∀ inputs zeroBased, op = .multiplexer inputs zeroBased → Scalar.CountsTo α inputs

namespace Operator

variable {op : Operator α} {block : String} {tick : Tick α} {read : Reader α}

/-- A picked port is one of the inputs. -/
theorem pick_le {inputs port : Nat} {zeroBased : Bool} {selector : α}
    (hcount : Scalar.CountsTo α inputs) (h : pick block inputs zeroBased selector = .ok port) :
    port ≤ inputs := by
  rw [pick] at h
  generalize Scalar.trunc (if zeroBased then selector + 1 else selector) = picked at h
  split at h
  next hrange =>
    cases h
    exact hcount picked hrange.2
  next => cases h

omit [Scalar α] in
theorem one_failsOnly {P : Failure α → Prop} {x : Except (Failure α) α} (hx : x.FailsOnly P) :
    Except.FailsOnly P (do return [← x] : Except (Failure α) (List α)) :=
  hx.bind fun _ _ => .ok _

theorem evaluate_failsOnly (f : ElementaryFunction) (block : String) (x : α) :
    (f.evaluate block x).FailsOnly Failure.Computational :=
  .ite (.error (.outsideDomain _ _ _)) (.ite (.error (.outsideDomain _ _ _)) (.ok _))

theorem pick_failsOnly (block : String) (inputs : Nat) (zeroBased : Bool) (selector : α) :
    (pick block inputs zeroBased selector).FailsOnly Failure.Computational :=
  .ite (.ok _) (.error (.selectorOutOfRange _ _))

omit [Scalar α] in
theorem cyclic_failsOnly (block : String) (values : List α) (iteration : Nat) :
    (cyclic block values iteration).FailsOnly Failure.Computational := by
  rw [cyclic]
  split
  · exact .ok _
  · exact .error (.emptySequence _)

/-- An operator fails only over values, if it reads what it needs and the input that a delay
remembers. -/
theorem compute_failsOnly (hop : op.isComposite = false) (hcount : op.Countable)
    (hnow : ∀ port ∈ op.neededInputs tick.iteration,
      (read port tick.iteration).FailsOnly Failure.Computational)
    (hpast : op = .delay → tick.iteration ≠ 0 →
      (read 0 (tick.iteration - 1)).FailsOnly Failure.Computational) :
    (op.compute block tick read).FailsOnly Failure.Computational := by
  -- all inputs of an operator without memory are needed
  have h (hneeded : op.neededInputs tick.iteration = List.range op.inputNames.length) (port : Nat)
      (hport : port < op.inputNames.length) :
      (read port tick.iteration).FailsOnly Failure.Computational :=
    hnow port (hneeded ▸ List.mem_range.mpr hport)
  have hall (hneeded : op.neededInputs tick.iteration = List.range op.inputNames.length)
      {count : Nat} (hlength : op.inputNames.length = count) :
      ((List.range count).mapM fun port => read port tick.iteration).FailsOnly
        Failure.Computational :=
    .mapM fun port hport => h hneeded port (hlength ▸ List.mem_range.mp hport)
  cases op with
  | composite => cases hop
  | clock | time | constant | step => exact .ok _
  | sequence => exact one_failsOnly (cyclic_failsOnly _ _ _)
  | adder | product | minimum | maximum | or | and =>
      exact .bind (hall rfl (length_numbered _ _)) fun _ _ => .ok _
  | power | lessThan | atMost | equals =>
      exact .bind (h rfl 0 Nat.zero_lt_two) fun _ _ =>
        .bind (h rfl 1 Nat.one_lt_two) fun _ _ => .ok _
  | modulo =>
      refine .bind (h rfl 0 Nat.zero_lt_two) fun x _ => .bind (h rfl 1 Nat.one_lt_two) fun y _ => ?_
      exact one_failsOnly (.ite (.error (.divisionByZero _)) (.ok _))
  | root =>
      refine .bind (h rfl 0 Nat.zero_lt_two) fun x _ => .bind (h rfl 1 Nat.one_lt_two) fun y _ => ?_
      refine one_failsOnly (.ite (.error (.divisionByZero _)) ?_)
      exact .ite (.ok _) (.error (.undefinedRoot _ _ _))
  | inverter =>
      exact .bind (h rfl 0 Nat.zero_lt_one) fun _ _ =>
        one_failsOnly (.ite (.error (.divisionByZero _)) (.ok _))
  | function f =>
      exact .bind (h rfl 0 Nat.zero_lt_one) fun x _ => one_failsOnly (evaluate_failsOnly f _ x)
  | log =>
      exact .bind (h rfl 0 Nat.zero_lt_one) fun _ _ => .ite (.ok _) (.error (.reported _ _ _))
  | clamp bounds =>
      cases bounds with
      | none =>
          have hlength : (clamp none : Operator α).inputNames.length = 3 := length_numbered _ _
          exact .bind (h rfl 0 (by omega)) fun _ _ => .bind (h rfl 1 (by omega)) fun _ _ =>
            .bind (h rfl 2 (by omega)) fun _ _ => .ok _
      | some bounds => exact .bind (h rfl 0 Nat.zero_lt_one) fun _ _ => .ok _
  | multiplexer inputs zeroBased =>
      have hlength : (multiplexer inputs zeroBased : Operator α).inputNames.length = inputs + 1 := by
        rw [inputNames, List.length_cons, length_numbered]
      refine .bind (h rfl 0 (by omega)) fun selector _ => ?_
      refine .bind (pick_failsOnly _ _ _ _) fun port hpick => one_failsOnly (h rfl port ?_)
      have hle := pick_le (hcount inputs zeroBased rfl) hpick
      omega
  | delay =>
      refine one_failsOnly ?_
      split
      next hfirst =>
        have hinput := hnow 1 (by rw [neededInputs, if_pos hfirst]; exact List.mem_cons_self)
        rwa [hfirst] at hinput
      next hlater => exact hpast rfl hlater
  | _ => exact .bind (h rfl 0 Nat.zero_lt_one) fun _ _ => .ok _

end Operator

end CausalBlocks
