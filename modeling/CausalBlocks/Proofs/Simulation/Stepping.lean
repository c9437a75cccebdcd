import CausalBlocks.Proofs.Simulation.Restarting

/-!
# Steps that follow the time

A clock steps by what it announced or by what arrives at its input. Where that is a function of
the time alone, the time of an iteration follows from the time of the one before, and it does
not matter since when the clock has been counting.
-/

namespace CausalBlocks

variable {α ω : Type}

/-- Whether a link leads to the first input of a block. -/
def Block.isLinked (b : Block α) : Bool :=
  match b.inputs with
  | input :: _ => input.incoming.isSome
  | [] => false

theorem Block.isLinked_of_frame {b b' : Block α} (h : b'.frame = b.frame) :
    b'.isLinked = b.isLinked := by
  have hframe : ∀ b : Block α, b.frame.isLinked = b.isLinked := by
    rintro ⟨name, operator, rate, inputs, outputs, children⟩
    cases inputs <;> rfl
  rw [← hframe, h, hframe]

/-- A function of a start and a time that only looks at the time. -/
def Timeless (f : α → α → α) : Prop := ∀ start start' time, f start time = f start' time

namespace Diagram

variable [Scalar α] {d d' : Diagram α} {clock : BlockId} {step : α → α → α}

/-- What a clock steps by is a function of the time at which it started and the time. -/
inductive StepsBy (d : Diagram α) (clock : BlockId) : (α → α → α) → Prop
  | announced {b : Block α} {start announced : α} (h : d.Prompt clock b)
      (hop : b.operator = .clock start announced) (hopen : b.isLinked = false) :
      StepsBy d clock fun _ _ => announced
  | driven {b : Block α} {driver : PortId} {step : α → α → α} (h : d.Prompt clock b)
      (hop : b.operator.isClock = true) (hlinked : b.isLinked = true)
      (hdriver : d.driverOf (.input clock 0) = .ok driver) (hstep : d.Tracks driver step) :
      StepsBy d clock step

theorem StepsBy.retimed (h : d.StepsBy clock step) (hd : d.Retimed d') :
    d'.StepsBy clock step := by
  cases h with
  | @announced b start announced h hop hopen =>
      obtain ⟨b', h', hoperator⟩ := h.retimed hd
      have hlinked := Block.isLinked_of_frame (hd.frame.frame_eq h.block h'.block)
      obtain hsame | ⟨_, start', _, hclock, hop'⟩ := hoperator
      · exact .announced h' (hsame.trans hop) (hlinked.trans hopen)
      · cases hop.symm.trans hclock
        exact .announced h' hop' (hlinked.trans hopen)
  | driven h hop hlinked hdriver hstep =>
      obtain ⟨b', h', hoperator⟩ := h.retimed hd
      have hsame := Block.isLinked_of_frame (hd.frame.frame_eq h.block h'.block)
      exact .driven h' (hoperator.isClock.trans hop) (hsame.trans hlinked)
        (hd.frame.driverOf hdriver) (hstep.retimed hd)

end Diagram

namespace Simulation

variable [Scalar α] {s s' : Simulation α ω} {tick : Tick α} {clock : BlockId} {k : Nat}
  {step : α → α → α}

/-- Once there are samples of it, the clock of a run is that of the model. -/
theorem clockOf_of_nextTick (hs : s.Sized) (hclock : s.diagram.clock = .ok clock)
    (hk : s.iteration = k + 1) (h : s.nextTick = .ok tick) : s.clockOf = .ok clock := by
  obtain ⟨run, hrun, h⟩ := Except.bind_eq_ok.mp h
  obtain ⟨_, hparameters, h⟩ := Except.bind_eq_ok.mp h
  rw [hk] at h
  obtain ⟨port, hport, h⟩ := Except.bind_eq_ok.mp h
  obtain ⟨b, hb, hoperator⟩ := clockParameters_eq_ok.mp hparameters
  have hprimitive : run ∈ s.diagram.primitives := by
    cases hx : port.history[k]? with
    | none =>
        simp only [hx] at h
        cases h
    | some x =>
        have hsample : s.diagram.sample? (.output run 0) k = some x := by
          rw [Diagram.sample?, Diagram.history?, Diagram.port_eq_ok.mp hport]
          exact hx
        exact mem_primitives_of_mem_computedPorts (hs.mem_computedPorts hsample)
  rw [hrun, Diagram.eq_clock hclock hprimitive hb (by rw [hoperator]; rfl)]

/-- An iteration that is not the first since the clock started comes a step after the time that the
clock last told. -/
theorem step_of_nextTick (hs : s.Sized) (hclock : s.diagram.clock = .ok clock)
    (hk : s.iteration = k + 1) (h : s.nextTick = .ok tick) : ∃ start announced last,
      s.clockParameters clock = .ok (start, announced) ∧
        s.diagram.sample? (.output clock 0) k = some last ∧
          s.stepAfter clock announced k = .ok tick.step ∧ tick.time = last.value + tick.step := by
  have hrun := clockOf_of_nextTick hs hclock hk h
  obtain ⟨_, hsame, h⟩ := Except.bind_eq_ok.mp h
  cases hrun.symm.trans hsame
  obtain ⟨⟨start, announced⟩, hparameters, h⟩ := Except.bind_eq_ok.mp h
  rw [hk] at h
  obtain ⟨port, hport, h⟩ := Except.bind_eq_ok.mp h
  cases hx : port.history[k]? with
  | none =>
      simp only [hx] at h
      cases h
  | some last =>
      simp only [hx] at h
      obtain ⟨length, hlength, h⟩ := Except.bind_eq_ok.mp h
      cases h
      refine ⟨start, announced, last, hparameters, ?_, hlength, rfl⟩
      rw [Diagram.sample?, Diagram.history?, Diagram.port_eq_ok.mp hport]
      exact hx

end Simulation

end CausalBlocks
