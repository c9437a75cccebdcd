import CausalBlocks.Proofs.Diagram.Clocking
import CausalBlocks.Proofs.Diagram.Filling
import CausalBlocks.Proofs.Failing
import CausalBlocks.Proofs.Scalar.Rational

/-!
# What a failing call leaves behind

Each elementary call checks everything before its first change, so that it leaves the diagram as it
was when it fails. Ready-made composites are made by many such calls and nothing is taken back. The
calls after the first one cannot fail where they work inside a new composite. A clock at a fixed
rate is not put into a composite of its own: its constant can find its name taken when the clock is
already there.
-/

namespace CausalBlocks

variable {α β : Type}

namespace Edit

/-! ### Elementary edits -/

theorem Atomic.discard {d : Diagram α} {x : Edit α β} (hx : Atomic d x) :
    Atomic d (discard x : Edit α Unit) := by
  intro e failure e' hd h
  exact hx e failure e' hd (EStateM.discard_eq_error.mp h)

theorem setRate_atomic [Scalar α] (d : Diagram α) (id : BlockId) (rate : Option α) :
    Atomic d (setRate id rate) := by
  have hset : Atomic d (Edit.modifyBlock id fun b : Block α => { b with rate }) :=
    modifyBlock_atomic d id _
  cases rate with
  | none => exact hset
  | some period => exact .ite (fun _ => hset) fun _ => .diagram_bind .throw_bind

theorem setClockStart_atomic (d : Diagram α) (start : α) : Atomic d (setClockStart start) :=
  .diagram_bind (.lift_bind fun id _ => modifyBlock_atomic d id _)

end Edit

namespace DiagramCall

/-- A call that adds one block, links or unlinks two ports, copies a block or sets a parameter. -/
def Elementary : DiagramCall α → Prop
  | addBlock .. | addComposite .. | connectPorts .. | connect .. | disconnectPorts ..
  | disconnect .. | clone .. | setConstant .. | setRate .. | setClockStart .. => True
  | _ => False

variable [Scalar α] {e e' : Editor α} {call : DiagramCall α} {failure : Failure α}

/-- An elementary call that fails leaves the diagram as it was. -/
theorem perform_atomic (helementary : call.Elementary)
    (hfailed : call.perform e = .error failure e') : e'.diagram = e.diagram := by
  have hatomic : Edit.Atomic e.diagram call.perform := by
    cases call with
    | addBlock parent name operator => exact (Edit.insert_atomic _ parent name operator _ _).discard
    | addComposite parent name type inputs outputs =>
        exact (Edit.insert_atomic _ parent name _ inputs outputs).discard
    | connectPorts source target => exact Edit.connectPorts_atomic _ source target
    | connect parent source target output input =>
        exact Edit.connect_atomic _ parent source target output input
    | disconnectPorts source target => exact Edit.disconnectPorts_atomic _ source target
    | disconnect parent source target output input =>
        exact Edit.disconnect_atomic _ parent source target output input
    | clone source parent name => exact (Edit.clone_atomic _ source parent name).discard
    | setConstant path value => exact Edit.setConstant_atomic _ path value
    | setRate id rate => exact Edit.setRate_atomic _ id rate
    | setClockStart start => exact Edit.setClockStart_atomic _ start
    | _ => exact helementary.elim
  exact hatomic e failure e' rfl hfailed

/-- A link to an input that is driven fails, and the links are as they were. -/
theorem perform_atomic_driven : ∃ (e e' : Editor ℚ) (failure : Failure ℚ),
    (DiagramCall.connect ⟨0⟩ "t" "n" none (some "IN1")).perform e = .error failure e' ∧
      e'.diagram = e.diagram := by
  let e : Editor ℚ := Diagram.performAll { diagram := .empty "model" [] [] }
    [.addBlock ⟨0⟩ "t" .time, .addBlock ⟨0⟩ "n" .negator, .connect ⟨0⟩ "t" "n" none none]
  let call : DiagramCall ℚ := .connect ⟨0⟩ "t" "n" none (some "IN1")
  have hfails : (call.perform e).answer?.isNone = true := by decide +kernel
  obtain ⟨failure, hfails⟩ := EStateM.Result.eq_error (Option.isNone_iff_eq_none.mp hfails)
  have helementary : call.Elementary := trivial
  exact ⟨e, _, failure, hfails, perform_atomic helementary hfails⟩

end DiagramCall

/-! ### Ready-made composites -/

namespace Diagram

variable {d : Diagram α} {parent : BlockId} {name other : String}

/-- A block by another name changes nothing about which names a composite takes. -/
theorem takes_adopted (hother : d.Takes parent other) (hne : name ≠ other) (b : Block α) :
    (d.adopted parent other [b]).Takes parent name ↔ d.Takes parent name := by
  obtain ⟨outer, hparent, hcomposite, _⟩ := hother
  have hparent' : (d.adopted parent other [b]).block? parent = some _ :=
    block?_adopted_parent hparent
  have htaken : name ∈ ({ outer with
      children := outer.children ++ [⟨d.blocks.size⟩]
      childIndex := outer.childIndex ++ [(other, ⟨d.blocks.size⟩)] } : Block α).takenNames ↔
        name ∈ outer.takenNames := by
    simp [Block.takenNames, hne]
  constructor
  · rintro ⟨_, hb, _, hfree⟩
    cases hparent'.symm.trans hb
    exact ⟨outer, hparent, hcomposite, mt htaken.mpr hfree⟩
  · rintro ⟨_, hb, _, hfree⟩
    cases hparent.symm.trans hb
    exact ⟨_, hparent', hcomposite, mt htaken.mp hfree⟩

end Diagram

namespace Edit

variable {e e' e₁ e₂ : Editor α} {parent clock constant : BlockId} {stem : String} {step start : α}
  {failure : Failure α}

/-- The constant that holds the step can be linked to the clock. -/
theorem connectStep_total
    (hclock : addBlock parent (stem ++ "-clock") (.clock start step) e = .ok clock e₁)
    (hconstant : addBlock parent (stem ++ "-delta") (.constant step) e₁ = .ok constant e₂) :
    ∃ e', connect parent (stem ++ "-delta") (stem ++ "-clock") none (some clockStepInput) e₂ =
      .ok () e' := by
  obtain ⟨hfound, hfound'⟩ := finds_clock_and_step hclock hconstant
  obtain ⟨rfl, _, hdiagram, _⟩ := addBlock_ok (by simp) hclock
  obtain ⟨_, _, hdiagram', _⟩ := addBlock_ok (by simp) hconstant
  have hnone : e.diagram.block? ⟨e.diagram.blocks.size⟩ = none :=
    Diagram.block?_eq_none_of_size_le (Nat.le_refl _)
  refine connect_total
    (hfound'.sourceNamed (List.findIdx?_cons.trans (if_pos (beq_self_eq_true defaultOutput))))
    (hfound.targetNamed (List.findIdx?_cons.trans (if_pos (beq_self_eq_true clockStepInput))))
    (Diagram.faces_of_block hfound'.block Nat.zero_lt_one rfl)
    (Diagram.faces_of_block hfound.block Nat.zero_lt_one rfl) ?_
  rw [hdiagram', Diagram.incoming_adopted_make, hdiagram, Diagram.incoming_adopted_make,
    Diagram.incoming, Diagram.port?, hnone]
  rfl

/-- A clock at a fixed rate that fails leaves the diagram as it was, unless the clock itself was
taken and its constant was not. -/
theorem addFixedRateClock_unchanged_iff [Scalar α]
    (hfailed : addFixedRateClock parent stem step start e = .error failure e') :
    e'.diagram = e.diagram ↔ ¬(e.diagram.Takes parent (stem ++ "-clock") ∧
      ¬e.diagram.Takes parent (stem ++ "-delta")) := by
  have hne : stem ++ "-delta" ≠ stem ++ "-clock" := by simp
  rw [addFixedRateClock] at hfailed
  cases hclock : addBlock parent (stem ++ "-clock") (.clock start step) e with
  | error failure₁ e₁ =>
      rw [EStateM.bind_of_error hclock] at hfailed
      cases hfailed
      refine iff_of_true (insert_atomic _ parent _ _ _ _ e _ _ rfl hclock) fun htakes => ?_
      obtain ⟨_, _, hok⟩ := (insert_ok_iff (by simp)).mpr htakes.1
      cases hclock.symm.trans hok
  | ok clock e₁ =>
      rw [EStateM.bind_of_ok hclock] at hfailed
      have htakes : e.diagram.Takes parent (stem ++ "-clock") :=
        (insert_ok_iff (by simp)).mp ⟨_, _, hclock⟩
      obtain ⟨_, _, hdiagram, _⟩ := addBlock_ok (by simp) hclock
      cases hconstant : addBlock parent (stem ++ "-delta") (.constant step) e₁ with
      | ok constant e₂ =>
          obtain ⟨e₃, hconnect⟩ := connectStep_total hclock hconstant
          rw [EStateM.bind_of_ok hconstant, EStateM.bind_of_ok hconnect] at hfailed
          cases hfailed
      | error failure₂ e₂ =>
          -- the clock stays
          rw [EStateM.bind_of_error hconstant] at hfailed
          cases hfailed
          have hsame := insert_atomic _ parent _ _ _ _ e₁ _ _ rfl hconstant
          refine iff_of_false (fun hunchanged => ?_) (not_not.mpr ⟨htakes, fun hdelta => ?_⟩)
          · have hsize := congrArg (fun d => d.blocks.size) (hsame.symm.trans hunchanged)
            rw [hdiagram, Diagram.size_adopted] at hsize
            simp at hsize
          · rw [← Diagram.takes_adopted htakes hne, ← hdiagram] at hdelta
            obtain ⟨_, _, hok⟩ := (insert_ok_iff (by simp)).mpr hdelta
            cases hconstant.symm.trans hok

end Edit

namespace DiagramCall

/-- A call that adds a ready-made composite, or a clock at a fixed rate. -/
def ReadyMade : DiagramCall α → Prop
  | addIncrement .. | addDerivator .. | addIntegrator .. | addFixedRateClock .. => True
  | _ => False

/-- A call for a clock at a fixed rate where the clock is taken and its constant is not. -/
def StopsAtStep (d : Diagram α) : DiagramCall α → Prop
  | addFixedRateClock parent stem _ _ =>
    d.Takes parent (stem ++ "-clock") ∧ ¬d.Takes parent (stem ++ "-delta")
  | _ => False

variable [Scalar α] {e e' : Editor α} {call : DiagramCall α} {failure : Failure α}

/-- A call for something ready-made that fails leaves the diagram as it was, unless it stops at the
step of a clock. -/
theorem perform_unchanged_iff (hready : call.ReadyMade)
    (hfailed : call.perform e = .error failure e') :
    e'.diagram = e.diagram ↔ ¬call.StopsAtStep e.diagram := by
  cases call with
  | addIncrement parent name =>
      exact iff_of_true ((Edit.addIncrement_atomic _ parent name).discard e _ _ rfl hfailed) id
  | addDerivator parent name =>
      exact iff_of_true ((Edit.addDerivator_atomic _ parent name).discard e _ _ rfl hfailed) id
  | addIntegrator parent name =>
      exact iff_of_true ((Edit.addIntegrator_atomic _ parent name).discard e _ _ rfl hfailed) id
  | addFixedRateClock parent stem step start =>
      exact Edit.addFixedRateClock_unchanged_iff (EStateM.discard_eq_error.mp hfailed)
  | _ => exact hready.elim

/-- A model with one block in it. -/
def modelWith (name : String) : Editor ℚ :=
  Diagram.performAll { diagram := .empty "model" [] [] } [.addBlock ⟨0⟩ name .time]

theorem modelWith_built (name : String) : (modelWith name).diagram.Built := by
  refine .performAll (.empty "model" [] []) fun call hcall e => ?_
  obtain rfl := List.mem_singleton.mp hcall
  exact trivial

/-- Where a block has the name of the clock, nothing changes. -/
theorem clock_taken_unchanged : ∃ (e e' : Editor ℚ) (failure : Failure ℚ),
    (DiagramCall.addFixedRateClock ⟨0⟩ "c" 1 0).perform e = .error failure e' ∧
      e'.diagram = e.diagram := by
  let e := modelWith "c-clock"
  let call : DiagramCall ℚ := .addFixedRateClock ⟨0⟩ "c" 1 0
  have hfails : (call.perform e).answer?.isNone = true := by decide +kernel
  obtain ⟨failure, hfails⟩ := EStateM.Result.eq_error (Option.isNone_iff_eq_none.mp hfails)
  have htaken : (e.diagram.block? ⟨0⟩).map Block.takenNames = some ["c-clock"] := by decide +kernel
  have hready : call.ReadyMade := trivial
  refine ⟨e, _, failure, hfails, (perform_unchanged_iff hready hfails).mpr ?_⟩
  rintro ⟨⟨b, hb, _, hfree⟩, _⟩
  rw [hb, Option.map_some, Option.some.injEq] at htaken
  rw [htaken] at hfree
  exact hfree (by decide)

/-- Where a block has the name of the constant, the clock is added and stays. -/
theorem clock_left_behind : ∃ (e e' : Editor ℚ) (failure : Failure ℚ), e.diagram.Built ∧
    (DiagramCall.addFixedRateClock ⟨0⟩ "c" 1 0).perform e = .error failure e' ∧
      e'.diagram ≠ e.diagram := by
  let e := modelWith "c-delta"
  let call : DiagramCall ℚ := .addFixedRateClock ⟨0⟩ "c" 1 0
  have hfails : (call.perform e).answer?.isNone = true := by decide +kernel
  obtain ⟨failure, hfails⟩ := EStateM.Result.eq_error (Option.isNone_iff_eq_none.mp hfails)
  refine ⟨e, _, failure, modelWith_built _, hfails, fun hsame => ?_⟩
  have hsize : (call.perform e).state.diagram.blocks.size ≠ e.diagram.blocks.size := by
    decide +kernel
  exact hsize (by rw [hsame])

end DiagramCall

end CausalBlocks
