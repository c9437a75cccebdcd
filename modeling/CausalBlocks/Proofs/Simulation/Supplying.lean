import CausalBlocks.Proofs.Diagram.Atomicity
import CausalBlocks.Proofs.Simulation.Underway

/-!
# The clock that a model gets

A model without a clock gets one with a constant step before it runs. The stem of the two names is
one that is free in the model, but the names themselves are not looked up. So the clock can be
added just where both names happen to be free, and then nothing else changes; where only the second
one is taken, the clock is added and left without its step.
-/

namespace CausalBlocks

variable {α ω : Type}

/-! ### A clock and its step -/

namespace Diagram

variable {d d' : Diagram α} {parent id : BlockId} {stem name : String} {step start : α}

/-- What a composite is like with a clock and the constant that drives its step in it: the two have
new places and free names, there is one link between them, and every other block is as it was. -/
structure GetsClock (d d' : Diagram α) (parent : BlockId) (stem : String) (step start : α) :
    Prop where
  free : d.Takes parent (stem ++ "-clock") ∧ d.Takes parent (stem ++ "-delta")
  size : d'.blocks.size = d.blocks.size + 2
  clock : d'.block? ⟨d.blocks.size⟩ = some
    { Block.make (stem ++ "-clock") (.clock start step) (some parent) []
        ["time", "rel_time", "delta_t"] with
      inputs := [{ name := clockStepInput, incoming := some (.output ⟨d.blocks.size + 1⟩ 0) }] }
  constant : d'.block? ⟨d.blocks.size + 1⟩ = some
    { Block.make (stem ++ "-delta") (.constant step) (some parent) [] [] with
      outputs := [{ name := defaultOutput, outgoing := [.input ⟨d.blocks.size⟩ 0] }] }
  outer : ∀ outer, d.block? parent = some outer → d'.block? parent = some
    { outer with
      children := outer.children ++ [⟨d.blocks.size⟩, ⟨d.blocks.size + 1⟩]
      childIndex := outer.childIndex ++
        [(stem ++ "-clock", ⟨d.blocks.size⟩), (stem ++ "-delta", ⟨d.blocks.size + 1⟩)] }
  rest : ∀ id, id ≠ parent → id.index < d.blocks.size → d'.block? id = d.block? id

/-- What a block was like before a composite took others in. -/
theorem block?_adopted_other {blocks : List (Block α)} (hne : id ≠ parent)
    (hold : id.index < d.blocks.size) : (d.adopted parent name blocks).block? id = d.block? id := by
  rw [adopted, block?_modifyBlock, if_neg hne, block?_append, if_pos hold]

/-- A link changes nothing but the two blocks that it joins. -/
theorem block?_linked {source target : PortId} (hsource : id ≠ source.block)
    (htarget : id ≠ target.block) : (d.linked source target).block? id = d.block? id := by
  rw [linked, modifyPort, block?_modifyBlock, if_neg htarget, modifyPort, block?_modifyBlock,
    if_neg hsource]

section WithClock

variable (hparent : (d.block? parent).isSome)
include hparent

/-- The next place is not that of the composite. -/
theorem ne_of_size_le {n : Nat} (hn : d.blocks.size ≤ n) : (⟨n⟩ : BlockId) ≠ parent := by
  rintro rfl
  obtain ⟨outer, houter⟩ := Option.isSome_iff_exists.mp hparent
  exact Nat.lt_irrefl _ (Nat.lt_of_lt_of_le (lt_size_of_block? houter) hn)

/-- The new clock has one link, from the constant. -/
theorem block?_withClock_clock (stem : String) (step start : α) :
    (d.withClock parent stem step start).block? ⟨d.blocks.size⟩ = some
      { Block.make (stem ++ "-clock") (.clock start step) (some parent) []
          ["time", "rel_time", "delta_t"] with
        inputs :=
          [{ name := clockStepInput, incoming := some (.output ⟨d.blocks.size + 1⟩ 0) }] } := by
  rw [withClock, linked, modifyPort, block?_modifyBlock, if_pos rfl, modifyPort, block?_modifyBlock,
    if_neg (by simp), block?_adopted_of_ne (block?_adopted_new hparent)
      (ne_of_size_le hparent (Nat.le_refl _))]
  rfl

/-- The new constant drives the clock and nothing else. -/
theorem block?_withClock_constant (stem : String) (step start : α) :
    (d.withClock parent stem step start).block? ⟨d.blocks.size + 1⟩ = some
      { Block.make (stem ++ "-delta") (.constant step) (some parent) [] [] with
        outputs := [{ name := defaultOutput, outgoing := [.input ⟨d.blocks.size⟩ 0] }] } := by
  let clock : Block α := .make (stem ++ "-clock") (.clock start step) (some parent)
    (Operator.clock start step).inputNames (Operator.clock start step).outputNames
  let first := d.adopted parent (stem ++ "-clock") [clock]
  have hsize : first.blocks.size = d.blocks.size + 1 := size_adopted
  obtain ⟨outer, houter⟩ := Option.isSome_iff_exists.mp hparent
  have hlive : (first.block? parent).isSome := by
    rw [block?_adopted_parent houter]
    rfl
  rw [withClock, linked, modifyPort, block?_modifyBlock, if_neg (by simp), modifyPort,
    block?_modifyBlock, if_pos rfl, ← hsize, block?_adopted_new hlive]
  rfl

end WithClock

theorem getsClock_withClock (hclock : d.Takes parent (stem ++ "-clock"))
    (hconstant : d.Takes parent (stem ++ "-delta")) :
    d.GetsClock (d.withClock parent stem step start) parent stem step start := by
  have hfree := hclock
  obtain ⟨outer, hparent, _⟩ := hclock
  have hlive : (d.block? parent).isSome := by rw [hparent]; rfl
  have hneclock := ne_of_size_le hlive (Nat.le_refl _)
  have hneconstant := ne_of_size_le hlive (Nat.le_succ _)
  let first := d.adopted parent (stem ++ "-clock") [.make (stem ++ "-clock") (.clock start step)
    (some parent) (Operator.clock start step).inputNames (Operator.clock start step).outputNames]
  have hfirst : first.blocks.size = d.blocks.size + 1 := size_adopted
  have hparent₁ : first.block? parent = some _ := block?_adopted_parent hparent
  refine ⟨⟨hfree, hconstant⟩, ?_, block?_withClock_clock hlive stem step start,
    block?_withClock_constant hlive stem step start, fun outer' houter => ?_, fun id hid hold => ?_⟩
  · rw [withClock, size_linked, size_adopted, size_adopted]
    rfl
  · cases hparent.symm.trans houter
    rw [withClock, block?_linked hneconstant.symm hneclock.symm, block?_adopted_parent hparent₁]
    simp [hfirst, first, List.append_assoc]
  · have hlt : id.index < first.blocks.size := by omega
    rw [withClock, block?_linked ?_ ?_]
    · exact (block?_adopted_other hid hlt).trans (block?_adopted_other hid hold)
    · rintro rfl
      simp at hold
    · rintro rfl
      simp at hold

end Diagram

namespace Edit

variable {e e' : Editor α} {parent : BlockId} {stem name : String} {step start : α}

/-- A block by a name that is taken is not added, and only a notice tells of it. -/
theorem addBlock_taken {outer : Block α} (hparent : e.diagram.block? parent = some outer)
    (hcomposite : outer.isComposite = true) (hname : name ≠ "") (htaken : name ∈ outer.takenNames)
    (operator : Operator α) : ∃ e', addBlock parent name operator e =
      .error (.duplicateBlock (e.diagram.pathOf parent) name) e' ∧ e'.diagram = e.diagram := by
  have hchild : childName parent name e = .ok name e := by
    rw [childName, if_neg (mt String.isEmpty_iff.mp hname)]
    rfl
  rw [addBlock, insert, block_bind hparent, if_pos hcomposite]
  dsimp only
  rw [EStateM.bind_of_ok hchild, if_pos htaken]
  split
  next => exact ⟨_, rfl, rfl⟩
  next => exact ⟨_, rfl, rfl⟩

variable (h : e.diagram.Takes parent (stem ++ "-clock"))
include h

/-- The clock is added first, and its constant can be added then if it could be before. -/
theorem addBlock_clock (step start : α) : ∃ e',
    addBlock parent (stem ++ "-clock") (.clock start step) e = .ok ⟨e.diagram.blocks.size⟩ e' ∧
    e'.diagram = e.diagram.adopted parent (stem ++ "-clock") [.make (stem ++ "-clock")
      (.clock start step) (some parent) [clockStepInput] ["time", "rel_time", "delta_t"]] ∧
    (e'.diagram.Takes parent (stem ++ "-delta") ↔ e.diagram.Takes parent (stem ++ "-delta")) := by
  obtain ⟨clock, e', hok⟩ := insert_total h (by simp) (.clock start step)
    (Operator.clock start step).inputNames (Operator.clock start step).outputNames
  obtain ⟨rfl, _, hdiagram, _⟩ := addBlock_ok (by simp) hok
  refine ⟨e', hok, hdiagram, ?_⟩
  rw [hdiagram]
  exact Diagram.takes_adopted h (by simp) _

/-- A clock with a constant step can be added where both names are free. -/
theorem addFixedRateClock_total (hconstant : e.diagram.Takes parent (stem ++ "-delta")) :
    ∃ e', addFixedRateClock parent stem step start e = .ok ⟨e.diagram.blocks.size⟩ e' := by
  obtain ⟨e₁, hok, _, htakes⟩ := addBlock_clock h step start
  obtain ⟨constant, e₂, hok'⟩ := insert_total (htakes.mpr hconstant) (by simp) (.constant step)
    (Operator.constant step).inputNames (Operator.constant step).outputNames
  obtain ⟨e₃, hlink⟩ := connectStep_total hok hok'
  exact ⟨e₃, EStateM.bind_eq_ok.mpr ⟨_, _, hok, EStateM.bind_eq_ok.mpr ⟨_, _, hok',
    EStateM.bind_eq_ok.mpr ⟨_, _, hlink, rfl⟩⟩⟩⟩

omit h in
theorem addFixedRateClock_ok_iff (step start : α) :
    (∃ id e', addFixedRateClock parent stem step start e = .ok id e') ↔
      e.diagram.Takes parent (stem ++ "-clock") ∧ e.diagram.Takes parent (stem ++ "-delta") := by
  constructor
  · rintro ⟨id, e', hok⟩
    simp only [addFixedRateClock, EStateM.bind_eq_ok] at hok
    obtain ⟨clock, e₁, hfirst, constant, e₂, hsecond, _⟩ := hok
    have hclock : e.diagram.Takes parent (stem ++ "-clock") :=
      (insert_ok_iff (by simp)).mp ⟨_, _, hfirst⟩
    obtain ⟨e₁', hfirst', _, htakes⟩ := addBlock_clock hclock step start
    cases hfirst.symm.trans hfirst'
    exact ⟨hclock, htakes.mp ((insert_ok_iff (by simp)).mp ⟨_, _, hsecond⟩)⟩
  · rintro ⟨hclock, hconstant⟩
    obtain ⟨e', hok⟩ := addFixedRateClock_total hclock hconstant
    exact ⟨_, e', hok⟩

/-- Where only the name of the constant is taken, the clock is all that is added. -/
theorem addFixedRateClock_stuck (hconstant : ¬e.diagram.Takes parent (stem ++ "-delta"))
    (step start : α) : ∃ e', addFixedRateClock parent stem step start e =
      .error (.duplicateBlock (e'.diagram.pathOf parent) (stem ++ "-delta")) e' ∧
    e'.diagram = e.diagram.adopted parent (stem ++ "-clock") [.make (stem ++ "-clock")
      (.clock start step) (some parent) [clockStepInput] ["time", "rel_time", "delta_t"]] := by
  obtain ⟨e₁, hok, hdiagram, htakes⟩ := addBlock_clock h step start
  obtain ⟨outer, hparent, hcomposite, _⟩ := h
  have hparent₁ :=
    (congrArg (·.block? parent) hdiagram).trans (Diagram.block?_adopted_parent hparent)
  have htaken := Classical.not_not.mp fun hfree =>
    hconstant (htakes.mp ⟨_, hparent₁, hcomposite, hfree⟩)
  obtain ⟨e₂, hfails, hsame⟩ := addBlock_taken hparent₁ hcomposite (by simp) htaken (.constant step)
  refine ⟨e₂, ?_, hsame.trans hdiagram⟩
  rw [addFixedRateClock, EStateM.bind_of_ok hok, EStateM.bind_of_error hfails, hsame]

omit h in
/-- Where the name of the clock is taken, nothing is added. -/
theorem addFixedRateClock_taken {outer : Block α} (hparent : e.diagram.block? parent = some outer)
    (hcomposite : outer.isComposite = true) (hclock : ¬e.diagram.Takes parent (stem ++ "-clock"))
    (step start : α) : ∃ e', addFixedRateClock parent stem step start e =
      .error (.duplicateBlock (e.diagram.pathOf parent) (stem ++ "-clock")) e' ∧
    e'.diagram = e.diagram := by
  have htaken := Classical.not_not.mp fun hfree => hclock ⟨outer, hparent, hcomposite, hfree⟩
  obtain ⟨e₁, hfails, hsame⟩ :=
    addBlock_taken hparent hcomposite (by simp) htaken (.clock start step)
  exact ⟨e₁, by rw [addFixedRateClock, EStateM.bind_of_error hfails], hsame⟩

end Edit

namespace Diagram

variable {d : Diagram α} {name stem : String}

/-- The model keeps its name while blocks are put in it. -/
theorem name_adopted (b : Block α) (hroot : (d.block? d.root).isSome) :
    (d.adopted d.root name [b]).name = d.name := by
  obtain ⟨outer, hroot⟩ := Option.isSome_iff_exists.mp hroot
  have hroot' : (d.adopted d.root name [b]).block? (d.adopted d.root name [b]).root = _ :=
    block?_adopted_parent hroot
  rw [Diagram.name, hroot', Diagram.name, hroot]

theorem exists_uniqueName (hroot : (d.block? d.root).isSome) (stem : String) :
    ∃ name, d.uniqueName d.root stem false = .ok name := by
  obtain ⟨outer, hroot⟩ := Option.isSome_iff_exists.mp hroot
  exact ⟨_, Except.bind_eq_ok.mpr ⟨outer, block_eq hroot, rfl⟩⟩

end Diagram

namespace Simulation

variable [Scalar α] {s s' : Simulation α ω} {stem name : String} {step : α}

omit [Scalar α] in
theorem edit_eq_error {β : Type} {action : Edit α β} {failure : Failure α} :
    edit action s = .error failure s' ↔
      ∃ editor, action s.editor = .error failure editor ∧ s' = { s with editor } := by
  rw [edit]
  cases action s.editor with
  | ok y editor => simp
  | error other editor => simp [eq_comm]

theorem ensureClock_of_missing (hmissing : s.diagram.clock = .error (.missingClock name))
    (hstem : s.diagram.uniqueName s.diagram.root "clock" false = .ok stem) (step : α) :
    ensureClock step s = edit (.addFixedRateClock s.diagram.root stem step 0) s := by
  rw [ensureClock, EStateM.bind_of_ok (model_eq_ok.mpr ⟨rfl, rfl⟩), hmissing]
  exact EStateM.bind_of_ok (EStateM.lift_eq_ok.mpr ⟨hstem, rfl⟩)

/-- A model without a clock gets one exactly if both names are free, and then it gets nothing else.
If one is taken the run fails; the clock stays in the model then if it was the name of the
constant. -/
theorem ensureClock_supplies (h : s.diagram.Built)
    (hmissing : s.diagram.clock = .error (.missingClock name)) (step : α) : ∃ stem,
      s.diagram.uniqueName s.diagram.root "clock" false = .ok stem ∧
      let FreeClock := s.diagram.Takes s.diagram.root (stem ++ "-clock")
      let FreeStep := s.diagram.Takes s.diagram.root (stem ++ "-delta")
      ((∃ clock s', ensureClock step s = .ok clock s') ↔ FreeClock ∧ FreeStep) ∧
      (∀ clock s', ensureClock step s = .ok clock s' → clock = ⟨s.diagram.blocks.size⟩ ∧
        s' = { s with editor := s'.editor } ∧
          s.diagram.GetsClock s'.diagram s.diagram.root stem step 0) ∧
      (¬FreeClock → ∃ s', ensureClock step s =
        .error (.duplicateBlock s.diagram.name (stem ++ "-clock")) s' ∧ s'.diagram = s.diagram) ∧
      (FreeClock → ¬FreeStep → ∃ s', ensureClock step s =
        .error (.duplicateBlock s.diagram.name (stem ++ "-delta")) s' ∧
          s'.diagram = s.diagram.adopted s.diagram.root (stem ++ "-clock")
            [.make (stem ++ "-clock") (.clock 0 step) (some s.diagram.root) [clockStepInput]
              ["time", "rel_time", "delta_t"]]) := by
  have hroot : (s.diagram.block? s.diagram.root).isSome := h.wellFormed.live_root
  obtain ⟨stem, hstem⟩ := Diagram.exists_uniqueName hroot "clock"
  obtain ⟨outer, houter⟩ := Option.isSome_iff_exists.mp hroot
  have hcomposite : outer.isComposite = true := by
    have htop : compositeAt s.diagram.place? s.diagram.root = true := h.wellFormed.top.1
    rwa [compositeAt, Diagram.place?_eq houter] at htop
  have hensure := ensureClock_of_missing hmissing hstem step
  refine ⟨stem, hstem, ?_, fun clock s' hok => ?_, fun hclock => ?_, fun hclock hconstant => ?_⟩
  · rw [hensure]
    refine Iff.trans ?_ (Edit.addFixedRateClock_ok_iff step 0)
    constructor
    · rintro ⟨clock, s', hok⟩
      obtain ⟨editor, hok, _⟩ := edit_eq_ok.mp hok
      exact ⟨clock, editor, hok⟩
    · rintro ⟨clock, editor, hok⟩
      exact ⟨clock, _, edit_eq_ok.mpr ⟨editor, hok, rfl⟩⟩
  · obtain ⟨editor, hadd, rfl⟩ := edit_eq_ok.mp (hensure.symm.trans hok)
    obtain ⟨hclock, hconstant⟩ := (Edit.addFixedRateClock_ok_iff step 0).mp ⟨_, _, hadd⟩
    obtain ⟨rfl, _, hdiagram⟩ := Edit.addFixedRateClock_ok hadd
    refine ⟨rfl, rfl, ?_⟩
    rw [show Simulation.diagram { s with editor } = _ from hdiagram]
    exact Diagram.getsClock_withClock hclock hconstant
  · obtain ⟨editor, hfails, hsame⟩ :=
      Edit.addFixedRateClock_taken houter hcomposite hclock step 0
    exact ⟨_, hensure.trans (edit_eq_error.mpr ⟨editor, hfails, rfl⟩), hsame⟩
  · obtain ⟨editor, hfails, hstuck⟩ :=
      Edit.addFixedRateClock_stuck hclock hconstant step 0
    have hname : editor.diagram.pathOf s.diagram.root = s.diagram.name := by
      rw [hstuck]
      exact Diagram.name_adopted _ hroot
    rw [hname] at hfails
    exact ⟨_, hensure.trans (edit_eq_error.mpr ⟨editor, hfails, rfl⟩), hstuck⟩

/-- A run with step one of a model with one block, which is no clock. -/
def clockless (name : String) : Simulation ℚ Unit :=
  make (DiagramCall.modelWith name) { Settings.standard with step := 1 } ()

/-- A name that is the stem itself is avoided. -/
theorem clockless_getsClock : ∃ s', ensureClock 1 (clockless "clock") = .ok ⟨2⟩ s' ∧
    (clockless "clock").diagram.GetsClock s'.diagram ⟨0⟩ "clock1" 1 0 := by
  have hbuilt : (clockless "clock").diagram.Built := DiagramCall.modelWith_built "clock"
  have hmissing : (clockless "clock").diagram.clock = .error (.missingClock "model") := by rfl
  have hname : ((clockless "clock").diagram.uniqueName ⟨0⟩ "clock" false).toOption =
      some "clock1" := by decide +kernel
  have hok : (ensureClock 1 (clockless "clock")).answer? = some ⟨2⟩ := by decide +kernel
  obtain ⟨stem, hstem, _, hgets, _⟩ := ensureClock_supplies hbuilt hmissing 1
  cases (Except.eq_ok_of_toOption hname).symm.trans hstem
  exact ⟨_, EStateM.Result.eq_ok hok, (hgets _ _ (EStateM.Result.eq_ok hok)).2.2⟩

/-- A block that has the name of the clock is enough for a run to fail. -/
theorem clockless_fails : ∃ s : Simulation ℚ Unit, s.diagram.Built ∧
    s.diagram.clock = .error (.missingClock "model") ∧
      0 < s.settings.step ∧ Scalar.bounded s.settings.step ∧
        ∃ s', prepare s = .error (.duplicateBlock "model" "clock-clock") s' :=
  ⟨clockless "clock-clock", DiagramCall.modelWith_built _, by rfl, by decide +kernel,
    by decide +kernel, _, rfl⟩

end Simulation

end CausalBlocks
