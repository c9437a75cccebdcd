import CausalBlocks.Proofs.Scalar.Counting

/-!
# What operators ask

The computation of an operator is a series of questions to its reader, each about an input at
an iteration, and the next one may depend on the answers so far. An operator asks no more than
the inputs that it is said to need, and a delay its input of the iteration before; so readers
that agree there lead to the same result.
-/

namespace CausalBlocks

variable {α β : Type}

/-- A computation that asks a reader: it is done, or asks about a port at an iteration and goes
on with the answer. It fails with the first question that has none. -/
inductive Inquiry (α β : Type) where
  | done (outcome : Except (Failure α) β)
  | ask (port iteration : Nat) (next : α → Inquiry α β)

namespace Inquiry

variable {read read' : Reader α} {asks : Nat → Nat → Prop}

/-- What comes out with a reader. -/
def outcome (read : Reader α) : Inquiry α β → Except (Failure α) β
  | done result => result
  | ask port iteration next => read port iteration >>= fun x => (next x).outcome read

/-- The questions that a reader is asked, in order. -/
def asked (read : Reader α) : Inquiry α β → List (Nat × Nat)
  | done _ => []
  | ask port iteration next => (port, iteration) ::
    match read port iteration with
    | .ok x => (next x).asked read
    | .error _ => []

/-- All questions have a property, whatever the answers are. -/
inductive Within (asks : Nat → Nat → Prop) : Inquiry α β → Prop
  | done (result : Except (Failure α) β) : Within asks (done result)
  | ask {port iteration : Nat} {next : α → Inquiry α β} : asks port iteration →
      (∀ x, Within asks (next x)) → Within asks (ask port iteration next)

end Inquiry

namespace Operator

variable [Scalar α] {op : Operator α} {block : String} {tick : Tick α} {read read' : Reader α}

omit [Scalar α] in
/-- What an operator may ask: what it needs, and a delay its input of the iteration before. -/
def Wants (op : Operator α) (now port iteration : Nat) : Prop :=
  (port ∈ op.neededInputs now ∧ iteration = now) ∨
    (op = delay ∧ 0 < now ∧ port = 0 ∧ iteration = now - 1)

omit [Scalar α] in
/-- That is one of its inputs, and nothing of a later iteration. -/
theorem Wants.bounds {now port iteration : Nat} (h : op.Wants now port iteration) :
    port < op.inputNames.length ∧ iteration ≤ now := by
  rcases h with ⟨hneeded, rfl⟩ | ⟨rfl, hpos, rfl, rfl⟩
  · refine ⟨?_, Nat.le_refl _⟩
    cases op with
    | clock | composite => cases hneeded
    | delay =>
        rw [neededInputs] at hneeded
        split at hneeded
        next =>
          rw [List.mem_singleton.mp hneeded]
          exact Nat.lt_succ_self 1
        next => cases hneeded
    | _ => exact List.mem_range.mp hneeded
  · exact ⟨Nat.succ_pos 1, Nat.sub_le now 1⟩

end Operator

end CausalBlocks
