import CausalBlocks.Loop.Solve
import CausalBlocks.Proofs.Outcome

/-!
# What a loop reads

The equations of a loop are made of the operators of its blocks, of what drives their inputs, and
of the samples that arrive there. Where all of these can be found in another diagram as well, the
loop has the same solution there.
-/

namespace CausalBlocks.Diagram

variable {α : Type} {d e : Diagram α} {group : List BlockId} {iteration : Nat}
  {id : BlockId}

/-- What a block finds in one diagram at an iteration, it finds in another one. -/
structure ReadsAlike (d e : Diagram α) (iteration : Nat) (id : BlockId) : Prop where
  block : ∀ b, d.block id = .ok b → ∃ b', e.block id = .ok b' ∧ b'.operator = b.operator ∧
    ∀ name, b'.inputIndex? name = b.inputIndex? name
  driver : ∀ port, (d.driverOf (.input id port)).Refines (e.driverOf (.input id port))
  sample : ∀ port, (d.inputSample id port iteration).Refines (e.inputSample id port iteration)

namespace ReadsAlike

theorem operand (h : ReadsAlike d e iteration id) (port : Nat) :
    (d.operand group id iteration port).Refines (e.operand group id iteration port) := by
  refine (h.driver port).bind fun driver => ?_
  cases memberAt? group driver with
  | some member => exact .refl _
  | none => exact (h.sample port).bind fun _ => .refl _

theorem isLinearIn (h : ReadsAlike d e iteration id) (op : Operator α) :
    (d.isLinearIn group iteration id op).Refines (e.isLinearIn group iteration id op) := by
  cases op with
  | product inputs => exact (Except.Refines.mapM h.driver _).bind fun _ => .refl _
  | _ => exact .refl _

variable [Scalar α]

/-- The equation of a block is the same. -/
theorem addEquation {row : Fin group.length} (h : ReadsAlike d e iteration (group.get row))
    (s : LinearSystem α group.length) :
    (d.addEquation group iteration s row).Refines (e.addEquation group iteration s row) := by
  intro s' hs'
  obtain ⟨b, hb, hs'⟩ := Except.bind_eq_ok.mp hs'
  obtain ⟨b', hb', hoperator, hindex⟩ := h.block b hb
  refine Except.bind_eq_ok.mpr ⟨b', hb', ?_⟩
  rw [hoperator]
  refine (?_ : Except.Refines _ _) s' hs'
  cases b.operator with
  | adder inputs =>
      exact Except.Refines.foldlM (fun port _ s => (h.operand port).bind fun _ => .refl _) _
  | product inputs => exact (Except.Refines.mapM h.operand _).bind fun _ => .refl _
  | negator => exact (h.operand 0).bind fun _ => .refl _
  | delay =>
      refine .ite ?_ (.error _ _)
      dsimp only
      rw [hindex]
      cases b.inputIndex? initialCondition with
      | none => exact .error _ _
      | some port => exact (h.operand port).bind fun _ => .refl _
  | _ => exact .error _ _

end ReadsAlike

variable [Scalar α]

/-- A loop whose blocks find the same in another diagram has the same solution there. -/
theorem solveLoop_refines (h : ∀ id ∈ group, ReadsAlike d e iteration id) :
    (d.solveLoop group iteration).Refines (e.solveLoop group iteration) := by
  intro values hvalues
  obtain ⟨_, hcheck, hvalues⟩ := Except.bind_eq_ok.mp hvalues
  obtain ⟨s, hs, hvalues⟩ := Except.bind_eq_ok.mp hvalues
  have hcheck' : e.checkLoop group iteration = .ok () := by
    refine Except.forM_total fun id hid => ?_
    obtain ⟨b, hb, hlinear⟩ := Except.bind_eq_ok.mp (Except.forM_eq_ok hcheck id hid)
    obtain ⟨linear, hlinear, hmember⟩ := Except.bind_eq_ok.mp hlinear
    obtain ⟨b', hb', hoperator, _⟩ := (h id hid).block b hb
    refine Except.bind_eq_ok.mpr ⟨b', hb', ?_⟩
    rw [hoperator]
    refine Except.bind_eq_ok.mpr ⟨linear, (h id hid).isLinearIn _ _ hlinear, ?_⟩
    cases linear with
    | true => rfl
    | false => cases hmember
  have hs' : e.loopSystem group iteration = .ok s :=
    Except.Refines.foldlM (fun row _ s => (h _ (List.getElem_mem row.isLt)).addEquation s) _ s hs
  refine Except.bind_eq_ok.mpr ⟨(), hcheck', Except.bind_eq_ok.mpr ⟨s, hs', ?_⟩⟩
  cases hsolve : LinearSystem.solve s with
  | ok _ solved =>
      rw [hsolve] at hvalues
      exact hvalues
  | error reason _ =>
      rw [hsolve] at hvalues
      cases hvalues

end CausalBlocks.Diagram
