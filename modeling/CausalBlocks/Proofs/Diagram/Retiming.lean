import CausalBlocks.Proofs.Dependency.Build
import CausalBlocks.Proofs.Diagram.Construction
import CausalBlocks.Proofs.Diagram.Frame

/-!
# Diagrams with another start

Where the clock starts is written in the clock. Diagrams that differ in nothing but that and
their samples have the same blocks and the same links, and compute at the same places.
-/

namespace CausalBlocks

variable {α : Type}

/-- A clock that starts at a time; any other block stays as it is. -/
def Block.startingAt (start : α) (b : Block α) : Block α :=
  match b.operator with
  | .clock _ step => { b with operator := .clock start step }
  | _ => b

theorem Block.frame_startingAt (start : α) (b : Block α) : (b.startingAt start).frame = b.frame := by
  rw [startingAt]
  split
  next hoperator =>
    simp only [frame, isComposite, hoperator]
    rfl
  next => rfl

theorem Block.bare_startingAt (start : α) (b : Block α) :
    (b.startingAt start).bare = b.bare.startingAt start := by
  have hoperator : b.bare.operator = b.operator := rfl
  rw [startingAt, startingAt, hoperator]
  split <;> rfl

/-- Only the last of several starts counts. -/
theorem Block.startingAt_startingAt (first start : α) (b : Block α) :
    (b.startingAt first).startingAt start = b.startingAt start := by
  cases hoperator : b.operator with
  | clock old step => simp only [startingAt, hoperator]
  | _ => simp only [startingAt, hoperator]

theorem Block.startingAt_self {b : Block α} {start step : α} (h : b.operator = .clock start step) :
    b.startingAt start = b := by
  simp only [startingAt, h]
  rw [← h]

theorem Block.rate_startingAt (start : α) (b : Block α) : (b.startingAt start).rate = b.rate := by
  rw [startingAt]
  split <;> rfl

/-- Two operators are the same, or clocks that announce the same step. -/
def Operator.Retimed (op op' : Operator α) : Prop :=
  op' = op ∨ ∃ start start' step, op = .clock start step ∧ op' = .clock start' step

theorem Operator.Retimed.isClock {op op' : Operator α} (h : op.Retimed op') :
    op'.isClock = op.isClock := by
  obtain rfl | ⟨_, _, _, rfl, rfl⟩ := h <;> rfl

theorem Operator.Retimed.trans {op op' op'' : Operator α} (h : op.Retimed op')
    (h' : op'.Retimed op'') : op.Retimed op'' := by
  obtain rfl | ⟨start, _, step, rfl, rfl⟩ := h
  · exact h'
  · obtain rfl | ⟨_, start', _, hsame, rfl⟩ := h'
    · exact .inr ⟨_, _, _, rfl, rfl⟩
    · cases hsame
      exact .inr ⟨_, _, _, rfl, rfl⟩

theorem Block.operator_startingAt (start : α) (b : Block α) :
    b.operator.Retimed (b.startingAt start).operator := by
  rw [startingAt]
  split
  next old step hoperator => exact .inr ⟨old, start, step, hoperator, rfl⟩
  next => exact .inl rfl

namespace Diagram

variable {d d' d'' : Diagram α} {id : BlockId}

/-- Two diagrams differ in nothing but samples and when their clocks start. -/
structure Retimed (d d' : Diagram α) : Prop where
  frame : SameFrame d d'
  size : d'.blocks.size = d.blocks.size
  block : ∀ id b, d.block? id = some b → ∃ b', d'.block? id = some b' ∧ b'.rate = b.rate ∧
    b.operator.Retimed b'.operator

theorem SameShape.retimed (h : SameShape d d') : Retimed d d' where
  frame := h.sameFrame
  size := h.congr (fun d => d.blocks.size) size_clearSignals
  block id b hb := by
    obtain ⟨b', hb', hoperator, hrate, _⟩ := h.symm.block? hb
    exact ⟨b', hb', hrate, .inl hoperator⟩

theorem retimed_modifyBlock (d : Diagram α) (id : BlockId) (start : α) :
    Retimed d (d.modifyBlock id (Block.startingAt start)) where
  frame x := by
    rw [block?_modifyBlock]
    split
    next =>
      rw [Option.map_map]
      congr 1
      funext b
      exact b.frame_startingAt start
    next => rfl
  size := size_modifyBlock _
  block x b hb := by
    rw [block?_modifyBlock, hb, Option.map_some]
    split
    next => exact ⟨_, rfl, b.rate_startingAt start, b.operator_startingAt start⟩
    next => exact ⟨b, rfl, rfl, .inl rfl⟩

namespace Retimed

theorem trans (h : Retimed d d') (h' : Retimed d' d'') : Retimed d d'' where
  frame := h.frame.trans h'.frame
  size := h'.size.trans h.size
  block id b hb := by
    obtain ⟨b', hb', hrate, hoperator⟩ := h.block id b hb
    obtain ⟨b'', hb'', hrate', hoperator'⟩ := h'.block id b' hb'
    exact ⟨b'', hb'', hrate'.trans hrate, hoperator.trans hoperator'⟩

theorem primitives (h : Retimed d d') : d'.primitives = d.primitives :=
  h.frame.primitives h.size

theorem computedPorts (h : Retimed d d') : d'.computedPorts = d.computedPorts := by
  rw [Diagram.computedPorts, Diagram.computedPorts, h.primitives, h.frame.portIds]
  simp only [h.frame.portIds]
  rfl

/-- The clock is the same block. -/
theorem clock (h : Retimed d d') (hclock : d.clock = .ok id) : d'.clock = .ok id := by
  have hfilter : ∀ isClock isClock' : BlockId → Bool, (∀ x, isClock' x = isClock x) →
      d.primitives.filter isClock = [id] → d'.primitives.filter isClock' = [id] := by
    intro isClock isClock' hsame hd
    rw [h.primitives, List.filter_congr fun x _ => hsame x, hd]
  rw [Diagram.clock] at hclock ⊢
  split at hclock
  next => cases hclock
  next only honly =>
    cases hclock
    rw [hfilter _ _ (fun x => ?_) honly]
    cases hb : d.block? x with
    | none => rw [h.frame.missing hb]
    | some b =>
        obtain ⟨b', hb', _, hoperator⟩ := h.block x b hb
        rw [hb']
        exact hoperator.isClock
  next => cases hclock

end Retimed

/-! ### The clock -/

/-- The clock of a diagram is one of its primitives. -/
theorem mem_primitives_of_clock (h : d.clock = .ok id) : id ∈ d.primitives := by
  rw [Diagram.clock] at h
  split at h
  next => cases h
  next found hfound =>
    cases h
    exact (List.mem_filter.mp (hfound ▸ List.mem_singleton_self id)).1
  next => cases h

/-- The clock of a model is a block that says when it starts. -/
theorem exists_block_of_clock (h : d.clock = .ok id) :
    ∃ b start step, d.block? id = some b ∧ b.operator = .clock start step := by
  rw [Diagram.clock] at h
  split at h
  next => cases h
  next only honly =>
    cases h
    have hclock := (List.mem_filter.mp (honly ▸ List.mem_singleton_self id)).2
    cases hb : d.block? id with
    | none =>
        rw [hb] at hclock
        cases hclock
    | some b =>
        rw [hb] at hclock
        cases hoperator : b.operator with
        | clock start step => exact ⟨b, start, step, rfl, hoperator⟩
        | _ =>
            simp only [hoperator, Operator.isClock] at hclock
            cases hclock
  next => cases h

/-- There is no other clock inside the model. -/
theorem eq_clock {clock : BlockId} {b : Block α} (hclock : d.clock = .ok clock)
    (hid : id ∈ d.primitives) (hb : d.block? id = some b) (hop : b.operator.isClock = true) :
    id = clock := by
  rw [Diagram.clock] at hclock
  split at hclock
  next => cases hclock
  next only honly =>
    cases hclock
    have hmem : id ∈ [clock] := by
      rw [← honly, List.mem_filter, hb]
      exact ⟨hid, hop⟩
    exact List.mem_singleton.mp hmem
  next => cases hclock

/-! ### Setting the start -/

/-- The diagram with its clock starting at a time. Without one clock it stays as it is. -/
def startingAt (d : Diagram α) (start : α) : Diagram α :=
  match d.clock with
  | .ok id => d.modifyBlock id (Block.startingAt start)
  | .error _ => d

theorem startingAt_of_clock (h : d.clock = .ok id) (start : α) :
    d.startingAt start = d.modifyBlock id (Block.startingAt start) := by
  rw [startingAt, h]

theorem startingAt_of_error {failure : Failure α} (h : d.clock = .error failure) (start : α) :
    d.startingAt start = d := by
  rw [startingAt, h]

theorem retimed_startingAt (d : Diagram α) (start : α) : Retimed d (d.startingAt start) := by
  cases hclock : d.clock with
  | ok id =>
      rw [startingAt_of_clock hclock]
      exact retimed_modifyBlock d id start
  | error failure =>
      rw [startingAt_of_error hclock]
      exact (SameShape.refl d).retimed

theorem clock_startingAt (d : Diagram α) (start : α) : (d.startingAt start).clock = d.clock := by
  cases hclock : d.clock with
  | ok id => exact (retimed_startingAt d start).clock hclock
  | error failure => rw [startingAt_of_error hclock, hclock]

theorem startingAt_startingAt (d : Diagram α) (first start : α) :
    (d.startingAt first).startingAt start = d.startingAt start := by
  cases hclock : d.clock with
  | ok id =>
      rw [startingAt_of_clock ((clock_startingAt d first).trans hclock),
        startingAt_of_clock hclock, startingAt_of_clock hclock]
      refine ext_block? (by rw [size_modifyBlock, size_modifyBlock, size_modifyBlock]) fun x => ?_
      simp only [block?_modifyBlock]
      split
      next =>
        rw [Option.map_map]
        congr 1
        funext b
        exact b.startingAt_startingAt first start
      next => rfl
  | error failure => rw [startingAt_of_error hclock]

/-- The clock may be told to start when it starts anyway. -/
theorem startingAt_self {b : Block α} {start step : α} (hclock : d.clock = .ok id)
    (hb : d.block? id = some b) (hoperator : b.operator = .clock start step) :
    d.startingAt start = d := by
  rw [startingAt_of_clock hclock]
  refine ext_block? (size_modifyBlock _) fun x => ?_
  rw [block?_modifyBlock]
  split
  next hx => rw [hx, hb, Option.map_some, Block.startingAt_self hoperator]
  next => rfl

theorem clearSignals_startingAt (d : Diagram α) (start : α) :
    (d.startingAt start).clearSignals = d.clearSignals.startingAt start := by
  cases hclock : d.clock with
  | ok id =>
      rw [startingAt_of_clock hclock,
        startingAt_of_clock ((clock_clearSignals d).trans hclock)]
      refine ext_block? (by simp only [size_clearSignals, size_modifyBlock]) fun x => ?_
      simp only [block?_clearSignals, block?_modifyBlock]
      split
      next =>
        rw [Option.map_map, Option.map_map]
        congr 1
        funext b
        exact b.bare_startingAt start
      next => rfl
  | error failure =>
      rw [startingAt_of_error hclock, startingAt_of_error ((clock_clearSignals d).trans hclock)]

theorem clearSignals_clearSignals (d : Diagram α) : d.clearSignals.clearSignals = d.clearSignals :=
  d.sameShape_clearSignals

end Diagram

theorem Edit.setClockStart_total {e : Editor α} {id : BlockId} (h : e.diagram.clock = .ok id)
    (start : α) : setClockStart start e = .ok () { e with diagram := e.diagram.startingAt start } := by
  obtain ⟨b, _, _, hb, _⟩ := Diagram.exists_block_of_clock h
  have hedit := Edit.modifyBlock_apply id (Block.startingAt start) e
  rw [Diagram.block_eq hb] at hedit
  refine (EStateM.bind_of_ok (s := e) rfl).trans
    ((EStateM.bind_of_ok (EStateM.lift_eq_ok.mpr ⟨h, rfl⟩)).trans ?_)
  rw [Diagram.startingAt_of_clock h]
  exact hedit

/-- Setting the start of the clock changes the one clock. -/
theorem Edit.setClockStart_ok {start : α} {e e' : Editor α} (h : setClockStart start e = .ok () e') :
    ∃ id, e.diagram.clock = .ok id ∧
      e'.diagram = e.diagram.modifyBlock id (Block.startingAt start) := by
  simp only [setClockStart, EStateM.bind_eq_ok, diagram_eq_ok, EStateM.lift_eq_ok] at h
  obtain ⟨_, _, ⟨rfl, rfl⟩, id, e, ⟨hid, rfl⟩, h⟩ := h
  exact ⟨id, hid, (modifyBlock_ok h).2⟩

end CausalBlocks
