import CausalBlocks.Proofs.Dependency.Order
import CausalBlocks.Proofs.Dependency.Validity
import CausalBlocks.Proofs.Loop.Failing
import CausalBlocks.Proofs.Simulation.Failing
import CausalBlocks.Proofs.Simulation.Stepping

/-!
# Iterations miss nothing

An iteration of a valid model whose inputs have values finds every sample that it reads. Each
earlier iteration gave one to every port where a signal arises, and in its own the schedule puts
what a block needs before the block. So only the values can make it fail.
-/

namespace CausalBlocks

variable {α ω : Type}

/-- A clock that does not step by what it announced has no open input. -/
theorem Block.closed_of_isLinked {b : Block α} (h : b.isLinked = true) :
    Diagram.allowsOpenInputs b = false ∧ 0 < b.inputs.length := by
  rw [isLinked] at h
  split at h
  next input rest hinputs =>
    rw [Diagram.allowsOpenInputs, hinputs, List.all_cons, Option.isNone_eq_false_iff.mpr h,
      Bool.false_and, Bool.and_false]
    exact ⟨rfl, Nat.succ_pos _⟩
  next => cases h

/-- The inputs of all multiplexers can be counted. -/
def Diagram.Countable [Scalar α] (d : Diagram α) : Prop :=
  AllBlocks (fun b => b.operator.Countable) d

namespace Simulation

variable {s s' s₁ s₂ : Simulation α ω} {failure : Failure α} {tick : Tick α} {id : BlockId}
  {p driver : PortId} {b : Block α}

/-! ### The clock of a run -/

/-- The run goes by a clock of the model. -/
def Wound (s : Simulation α ω) : Prop := ∃ clock b start step,
  s.clock = some clock ∧ s.diagram.block? clock = some b ∧ b.operator = .clock start step

theorem StartsAt.wound {start : α} (h : s.StartsAt start) : s.Wound := by
  obtain ⟨clock, b, step, _, hrun, hb, hoperator⟩ := h
  exact ⟨clock, b, start, step, hrun, hb, hoperator⟩

theorem Wound.sameShape (h : s.Wound) (hshape : s.diagram.SameShape s'.diagram)
    (hclock : s'.clock = s.clock) : s'.Wound := by
  obtain ⟨clock, b, start, step, hrun, hb, hoperator⟩ := h
  obtain ⟨b', hb', hsame, _⟩ := hshape.symm.block? hb
  exact ⟨clock, b', start, step, hclock.trans hrun, hb', hsame.trans hoperator⟩

variable [Scalar α]

theorem wound_of_nextTick {clock : BlockId} (hrun : s.clock = some clock)
    (h : s.nextTick = .ok tick) : s.Wound := by
  obtain ⟨_, hclock, h⟩ := Except.bind_eq_ok.mp h
  rw [clockOf, hrun] at hclock
  cases hclock
  obtain ⟨_, hparameters, _⟩ := Except.bind_eq_ok.mp h
  obtain ⟨b, hb, hparameters⟩ := Except.bind_eq_ok.mp hparameters
  cases hoperator : b.operator with
  | clock start step => exact ⟨clock, b, start, step, hrun, Diagram.block_eq_ok.mp hb, hoperator⟩
  | _ =>
      rw [hoperator] at hparameters
      cases hparameters

theorem wound_of_prepare (h : prepare s = .ok () s') : s'.Wound := by
  obtain ⟨_, clock, s₁, _, s₂, s₃, s₄, _, _, hstart, htracers, hpacer, rfl⟩ := prepare_eq_ok.mp h
  obtain ⟨tick, htick, _, rfl⟩ := startClock_eq_ok.mp hstart
  rw [startPacer_ok hpacer, startTracers_ok htracers]
  exact (wound_of_nextTick rfl htick).sameShape (.refl _) rfl

/-- A turn in which an event fires ends with the clock starting anew. -/
theorem wound_of_fired {index : Nat} (h : advance s = .ok (some index) s') : s'.Wound := by
  obtain ⟨_, tried, hattempt, _⟩ := EStateM.bind_eq_ok.mp h
  let t : Turn α ω := ⟨s, tried, s', some index⟩
  have ht : t.Happens := ⟨hattempt, h⟩
  obtain ⟨_, _, _, ⟨_, hnone⟩ | ⟨_, _, _, _, _, hhandle⟩⟩ := ht.inspected
  · cases hnone
  · obtain ⟨_, _, _, _, _, _, _, _, _, _, _, _, _, _, _, hrestart⟩ := handleCrossing_steps hhandle
    obtain ⟨_, hstarts, _⟩ := restart_starts hrestart
    exact hstarts.wound

theorem wound_of_ready (hs : s.started = true → s.Wound) (h : ready s = .ok () s') :
    s'.Wound := by
  obtain ⟨hstarted, rfl⟩ | ⟨_, hprepare⟩ := ready_cases h
  · exact hs hstarted
  · exact wound_of_prepare hprepare

/-- A run that has begun goes by a clock. -/
theorem Reachable.wound (h : s.Reachable) : s.started = true → s.Wound := by
  induction h with
  | made _ _ hstopped =>
      intro hstarted
      rw [hstopped] at hstarted
      cases hstarted
  | begun _ hok =>
      obtain ⟨_, _, _, hprepare⟩ := EStateM.bind_eq_ok.mp hok
      exact fun _ => wound_of_prepare hprepare
  | advanced h hok ih =>
      obtain ⟨tried, events, hattempt, _, ⟨_, hs'⟩ | ⟨_, _, rfl, _⟩⟩ := advance_ok h.aligned hok
      · obtain ⟨s₀, _, _, _, hready, _, hiterated, _⟩ := attempt_ok h.aligned hattempt
        have hwound := (wound_of_ready ih hready).sameShape hiterated.shape (by rw [hiterated.rest])
        intro _
        rw [hs']
        exact hwound
      · exact fun _ => wound_of_fired hok
  | configured _ hchange ih =>
      intro hstarted
      refine (ih (hchange.started hstarted)).sameShape ?_ (by rw [hchange.rest])
      rw [hchange.diagram]
      exact .refl _

/-! ### What is there to be read -/

omit [Scalar α] in
/-- A port where a signal arises has a sample of every earlier iteration. -/
theorem Sized.exists_sample (hs : s.Sized) (hp : p ∈ s.diagram.computedPorts) {k : Nat}
    (hk : k < s.iteration) : ∃ x, s.diagram.sample? p k = some x := by
  obtain ⟨history, hhistory⟩ := Diagram.exists_history_of_computed hp
  have hsize := hs p history hhistory
  rw [if_pos hp] at hsize
  refine ⟨history[k], ?_⟩
  rw [Diagram.sample?, hhistory, Option.bind_some, Array.getElem?_eq_getElem]

omit [Scalar α] in
/-- What drives an input can be read at the input. -/
theorem inputSample_total {d : Diagram α} {index k : Nat} {x : Sample α}
    (hdriver : d.driverOf (.input id index) = .ok driver) (hx : d.sample? driver k = some x) :
    d.inputSample id index k = .ok x := by
  obtain ⟨history, hhistory, hx⟩ := Option.bind_eq_some_iff.mp hx
  exact Diagram.inputSample_eq_ok.mpr ⟨driver, history, hdriver, hhistory, hx⟩

omit [Scalar α] in
/-- At an input with a driver every earlier sample can be read. -/
theorem Sized.inputSample_total (hs : s.Sized) (hd : s.diagram.WellFormed) {index k : Nat}
    (hdriver : s.diagram.driverOf (.input id index) = .ok driver) (hk : k < s.iteration) :
    ∃ x, s.diagram.inputSample id index k = .ok x := by
  have hsource := (hd.source_of_driverOf rfl hdriver).2.2
  obtain ⟨x, hx⟩ := hs.exists_sample (hd.mem_computedPorts_iff.mpr hsource) hk
  exact ⟨x, Simulation.inputSample_total hdriver hx⟩

omit [Scalar α] in
/-- The clock tells the time at its first output. -/
theorem mem_computedPorts_of_clock {d : Diagram α} {b : Block α} {start announced : α}
    (hfitted : d.Fitted) (hid : id ∈ d.primitives) (hb : d.block? id = some b)
    (hoperator : b.operator = .clock start announced) : .output id 0 ∈ d.computedPorts := by
  refine List.mem_append_right _ (List.mem_flatMap.mpr ⟨id, hid, ?_⟩)
  refine Diagram.mem_portIds_iff.mpr ⟨rfl, rfl, ?_⟩
  have hprimitive : b.isComposite = false := by
    rw [Block.isComposite, hoperator]
    rfl
  have houtputs : 0 < b.outputs.length := by
    rw [hfitted id b hb hprimitive, hoperator]
    exact Nat.zero_lt_succ _
  rw [Diagram.port?_eq hb]
  change (b.outputs[0]?).isSome
  rw [List.getElem?_eq_getElem houtputs]
  rfl

/-- A later iteration comes a step after what the clock told last. -/
theorem nextTick_succ {clock : BlockId} {start announced length : α} {k : Nat} {last : Sample α}
    (hrun : s.clock = some clock) (hparameters : s.clockParameters clock = .ok (start, announced))
    (hk : s.iteration = k + 1) (hlast : s.diagram.sample? (.output clock 0) k = some last)
    (hlength : s.stepAfter clock announced k = .ok length) :
    s.nextTick = .ok ⟨k + 1, last.value + length, length, start⟩ := by
  obtain ⟨history, hhistory, hlast⟩ := Option.bind_eq_some_iff.mp hlast
  obtain ⟨port, hport, rfl⟩ := Option.map_eq_some_iff.mp hhistory
  have hfound : s.clockOf = .ok clock := by rw [clockOf, hrun]
  refine Except.bind_eq_ok.mpr ⟨clock, hfound, Except.bind_eq_ok.mpr ⟨_, hparameters, ?_⟩⟩
  rw [hk]
  refine Except.bind_eq_ok.mpr ⟨port, Diagram.port_eq hport, ?_⟩
  rw [hlast]
  exact Except.bind_eq_ok.mpr ⟨length, hlength, rfl⟩

/-- A group that has been computed has given its ports samples of the iteration. -/
theorem Reaches.exists_sample {done rest : List Group} {group : Group}
    {parts : List (List (PortId × Sample α))} (h : Reaches s tick done group rest parts s₂)
    (hs : s.Sized) (htick : tick.iteration = s.iteration)
    (hp : p ∈ done.flatMap s.diagram.groupOutputs) :
    ∃ x, s₂.diagram.sample? p tick.iteration = some x := by
  have hnodup := h.covers.outputs.nodup_iff.mpr h.covers.nodup
  rw [List.flatMap_append, List.nodup_append'] at hnodup
  have hcomputed : p ∈ s.diagram.computedPorts := by
    refine h.covers.outputs.mem_iff.mp ?_
    rw [List.flatMap_append]
    exact List.mem_append_left _ hp
  have hports := map_fst_flatten h.fills
  rw [← hports] at hp hnodup
  obtain ⟨⟨_, x⟩, hx, rfl⟩ := List.mem_map.mp hp
  obtain ⟨history, hhistory⟩ := Diagram.exists_history_of_computed hcomputed
  have hsize := hs _ history hhistory
  rw [if_pos hcomputed, ← htick] at hsize
  refine ⟨x, ?_⟩
  rw [Diagram.sample?, h.diagram, Diagram.history?_recordAll_of_mem hnodup.1 hx, hhistory,
    Option.map_some, Option.bind_some, ← hsize, Array.getElem?_push_size]

/-! ### Simulations that lack nothing -/

/-- Every input of the model has been given a value. -/
def InputsGiven (s : Simulation α ω) : Prop := ∀ p ∈ s.diagram.portIds s.diagram.root .input,
  ∃ name value, (s.diagram.port? p).map Port.name = some name ∧ s.inputs.lookup name = some value

/-- A simulation with everything that its next iteration needs. -/
structure Equipped (s : Simulation α ω) : Prop extends Poised s where
  current : s.Current
  wound : s.Wound
  wellFormed : s.diagram.WellFormed
  ported : s.diagram.Ported
  valid : s.diagram.validate = .ok ()
  given : s.InputsGiven
  countable : s.diagram.Countable
  dependencies : ∃ g, s.diagram.dependencies s.iteration = .ok g

namespace Equipped

/-- What is kept, the step that is imposed, and what is not of the model make no difference. -/
theorem congr (hs : s.Equipped) (hpoised : s'.Poised) (hcurrent : s'.Current)
    (hdiagram : s'.diagram = s.diagram)
    (hrest : s'.iteration = s.iteration ∧ s'.clock = s.clock ∧ s'.inputs = s.inputs) :
    s'.Equipped := by
  obtain ⟨hiteration, hclock, hinputs⟩ := hrest
  refine ⟨hpoised, hcurrent, hs.wound.sameShape (hdiagram ▸ .refl s.diagram) hclock,
    hdiagram ▸ hs.wellFormed, hdiagram ▸ hs.ported, hdiagram ▸ hs.valid, ?_,
    hdiagram ▸ hs.countable, ?_⟩
  · rw [InputsGiven, hdiagram, hinputs]
    exact hs.given
  · rw [hdiagram, hiteration]
    exact hs.dependencies

theorem forced (hs : s.Equipped) (step : Option α) : Equipped { s with forcedStep := step } :=
  hs.congr (hs.toPoised.forced step) (hs.current.congr rfl ⟨rfl, rfl, rfl⟩) rfl ⟨rfl, rfl, rfl⟩

/-! ### The next tick -/

/-- The step of the clock can be read if it is not announced. -/
theorem stepAfter_total (hs : s.Equipped) {clock : BlockId} (announced : α) {k : Nat}
    (hclock : clock ∈ s.diagram.primitives) (hb : s.diagram.block? clock = some b)
    (hk : k < s.iteration) : ∃ length, s.stepAfter clock announced k = .ok length := by
  rw [stepAfter]
  cases s.forcedStep with
  | some step => exact ⟨step, rfl⟩
  | none =>
      cases hlinked : b.isLinked with
      | true =>
          obtain ⟨hclosed, hinput⟩ := Block.closed_of_isLinked hlinked
          obtain ⟨driver, hdriver⟩ :=
            Diagram.driverOf_of_validate hs.valid hclock hb hclosed hinput
          obtain ⟨x, hx⟩ := hs.sized.inputSample_total hs.wellFormed hdriver hk
          refine ⟨x.value, Except.bind_eq_ok.mpr ⟨b, Diagram.block_eq hb, ?_⟩⟩
          change (if b.isLinked then _ else _) = _
          rw [if_pos hlinked]
          exact Except.bind_eq_ok.mpr ⟨x, hx, rfl⟩
      | false =>
          refine ⟨announced, Except.bind_eq_ok.mpr ⟨b, Diagram.block_eq hb, ?_⟩⟩
          change (if b.isLinked then _ else _) = _
          rw [hlinked]
          rfl

/-- The clock has a sample of every earlier iteration to step on from. -/
theorem nextTick_total (hs : s.Equipped) : ∃ tick, s.nextTick = .ok tick := by
  obtain ⟨clock, b, start, announced, hrun, hb, hoperator⟩ := hs.wound
  have hprimitive : b.isComposite = false := by
    rw [Block.isComposite, hoperator]
    rfl
  have hclock : clock ∈ s.diagram.primitives := by
    refine hs.wellFormed.mem_primitives_iff.mpr ⟨by rw [hb]; rfl, ?_⟩
    rw [Diagram.isComposite, hb]
    exact hprimitive
  have hparameters : s.clockParameters clock = .ok (start, announced) :=
    clockParameters_eq_ok.mpr ⟨b, hb, hoperator⟩
  have hport := mem_computedPorts_of_clock hs.fitted hclock hb hoperator
  cases hiteration : s.iteration with
  | zero =>
      refine ⟨⟨0, start, announced, start⟩, Except.bind_eq_ok.mpr ⟨clock, ?_, ?_⟩⟩
      · rw [clockOf, hrun]
      · rw [hiteration]
        exact Except.bind_eq_ok.mpr ⟨_, hparameters, rfl⟩
  | succ before =>
      have hbefore : before < s.iteration := by omega
      obtain ⟨length, hlength⟩ := hs.stepAfter_total announced hclock hb hbefore
      obtain ⟨last, hlast⟩ := hs.sized.exists_sample hport hbefore
      exact ⟨_, nextTick_succ hrun hparameters hiteration hlast hlength⟩

/-! ### The groups of the iteration -/

variable {done rest : List Group} {group : Group} {parts : List (List (PortId × Sample α))}

/-- The iteration uses the schedule of its dependencies. -/
theorem exists_graph (hs : s.Equipped) (h : Reaches s tick done group rest parts s₂) :
    ∃ g, s.diagram.dependencies s.iteration = .ok g ∧ g.schedule = done ++ group :: rest := by
  obtain ⟨g, hg⟩ := hs.dependencies
  obtain ⟨s₁, hschedule⟩ := h.schedule
  have hsame := (currentSchedule_total hs.current hg).symm.trans hschedule
  exact ⟨g, hg, (EStateM.Result.ok.inj hsame).1⟩

/-- A block of a group is a primitive. -/
theorem exists_primitive (hs : s.Equipped) (h : Reaches s tick done group rest parts s₂)
    (hid : id ∈ group.blocks) : id ∈ s.diagram.primitives ∧ s.diagram.isComposite id = false ∧
      ∃ b, s.diagram.block? id = some b := by
  have hprimitive : id ∈ s.diagram.primitives := by
    refine h.covers.blocks.mem_iff.mp (List.mem_flatMap.mpr ⟨group, ?_, hid⟩)
    exact List.mem_append_right done List.mem_cons_self
  obtain ⟨hlive, hcomposite⟩ := hs.wellFormed.mem_primitives_iff.mp hprimitive
  exact ⟨hprimitive, hcomposite, Option.isSome_iff_exists.mp hlive⟩

/-- What a block of the group needs can be read, unless it is one of the unknowns of a loop. -/
theorem needed_total (hs : s.Equipped) (h : Reaches s tick done group rest parts s₂)
    (htick : tick.iteration = s.iteration) (hid : id ∈ group.blocks)
    (hb : s.diagram.block? id = some b) {index : Nat}
    (hneeded : index ∈ b.operator.neededInputs tick.iteration) :
    ∃ driver, s₂.diagram.driverOf (.input id index) = .ok driver ∧
      ((∃ x, s₂.diagram.inputSample id index tick.iteration = .ok x) ∨
        ∃ ids, group = .cycle ids ∧ driver.side = .output ∧ driver.block ∈ ids) := by
  obtain ⟨g, hg, hsplit⟩ := hs.exists_graph h
  obtain ⟨hprimitive, hcomposite, _⟩ := hs.exists_primitive h hid
  obtain ⟨driver, hdriver⟩ :=
    Diagram.driverOf_needed hs.valid hs.ported hprimitive hcomposite hb hneeded
  have hdriver₂ := h.extends_diagram.shape.sameFrame.driverOf hdriver
  refine ⟨driver, hdriver₂, ?_⟩
  rw [htick] at hneeded
  refine (hs.wellFormed.computed_before hg hsplit hid hb hneeded hdriver).imp_left fun hdone => ?_
  obtain ⟨x, hx⟩ := h.exists_sample hs.sized htick hdone
  exact ⟨x, inputSample_total hdriver₂ hx⟩

/-- An input of the model has a value. -/
theorem feedInput_total (hs : s.Equipped) (h : Reaches s tick done (.port p) rest parts s₂) :
    ∃ s', feedInput p tick s₂ = .ok () s' := by
  obtain ⟨g, hg, hsplit⟩ := hs.exists_graph h
  have hdescribes := DependencyGraph.describesNodes_of_dependencies hg
  have hnode : .port p ∈ s.diagram.nodes := by
    rw [← hdescribes.members]
    refine DependencyGraph.port_mem_members hdescribes.sound ?_
    rw [hsplit]
    exact List.mem_append_right done List.mem_cons_self
  refine Simulation.feedInput_total tick fun ⟨_, hside⟩ => ?_
  rw [h.extends_diagram.shape.portName?, h.inputs]
  exact hs.given p ((Diagram.port_mem_nodes_iff hside).mp hnode)

/-- A block that comes after what it needs fails only because of what it computes. -/
theorem compute_failsOnly (hs : s.Equipped) (h : Reaches s tick done (.block id) rest parts s₂)
    (htick : tick.iteration = s.iteration) (hb : s.diagram.block? id = some b) :
    (b.operator.compute (s₂.diagram.pathOf id) tick (readerOf s₂.diagram id)).FailsOnly
      Failure.Computational := by
  have hid : id ∈ (Group.block id).blocks := List.mem_singleton_self id
  obtain ⟨hprimitive, hcomposite, _⟩ := hs.exists_primitive h hid
  rw [Diagram.isComposite, hb] at hcomposite
  have hread {index k : Nat} {x : Sample α} (hx : s₂.diagram.inputSample id index k = .ok x) :
      (readerOf s₂.diagram id index k).FailsOnly Failure.Computational := by
    rw [readerOf, hx]
    exact .ok _
  refine Operator.compute_failsOnly hcomposite (hs.countable id b hb) (fun index hneeded => ?_)
    fun hdelay hlater => ?_
  · obtain ⟨_, _, ⟨_, hx⟩ | ⟨_, hcycle, _⟩⟩ := hs.needed_total h htick hid hb hneeded
    · exact hread hx
    · cases hcycle
  · -- what a delay remembers was recorded in the iteration before
    have hinput : 0 < b.inputs.length := by
      rw [← List.length_map, hs.ported id b hb hcomposite, hdelay]
      exact Nat.zero_lt_two
    have hclosed : Diagram.allowsOpenInputs b = false := by
      rw [Diagram.allowsOpenInputs, hdelay]
      rfl
    obtain ⟨driver, hdriver⟩ :=
      Diagram.driverOf_of_validate hs.valid hprimitive hb hclosed hinput
    obtain ⟨x, hx⟩ := hs.sized.inputSample_total hs.wellFormed hdriver
      (show tick.iteration - 1 < s.iteration by omega)
    exact hread (h.extends_diagram.inputSample hx)

/-- A loop that comes after what it needs from outside fails only over its equations. -/
theorem supplied (hs : s.Equipped) {ids : List BlockId}
    (h : Reaches s tick done (.cycle ids) rest parts s₂) (htick : tick.iteration = s.iteration)
    (hid : id ∈ ids) : ∃ b, s₂.diagram.Supplied ids tick.iteration id b := by
  have hshape := h.extends_diagram.shape
  obtain ⟨_, _, b, hb⟩ := hs.exists_primitive h hid
  obtain ⟨b₂, hb₂, hoperator, _⟩ := hshape.symm.block? hb
  refine ⟨b₂, hb₂, hshape.ported hs.ported id b₂ hb₂, fun port hneeded => ?_⟩
  rw [hoperator] at hneeded
  obtain ⟨driver, hdriver, hread | ⟨_, hcycle, hside, hblock⟩⟩ :=
    hs.needed_total h htick hid hb hneeded
  · exact ⟨driver, hdriver, fun _ => hread⟩
  · cases hcycle
    exact ⟨driver, hdriver, fun hnone => absurd hnone (Diagram.memberAt?_ne_none hside hblock)⟩

/-- A group of the schedule fails only over values. -/
theorem computeGroup_error (hs : s.Equipped) (h : Reaches s tick done group rest parts s₂)
    (htick : tick.iteration = s.iteration) (hfails : computeGroup tick group s₂ = .error failure s') :
    failure.Computational := by
  have hshape := h.extends_diagram.shape
  have hfitted := hshape.fitted hs.fitted
  have hrepeat := h.repeatable hs.sized htick
  cases group with
  | port p =>
      obtain ⟨_, hok⟩ := hs.feedInput_total h
      cases hok.symm.trans hfails
  | block id =>
      obtain ⟨_, _, b, hb⟩ := hs.exists_primitive h (List.mem_singleton_self id)
      obtain ⟨b₂, hb₂, hoperator, _⟩ := hshape.symm.block? hb
      have hcompute := (computeBlock_error hfitted hrepeat hfails).2 b₂ hb₂
      rw [hoperator] at hcompute
      exact hs.compute_failsOnly h htick hb failure hcompute
  | cycle ids =>
      have hsolve := (computeLoop_error hfitted hrepeat hfails).2
      exact Diagram.solveLoop_failsOnly (fun id hid => hs.supplied h htick hid) failure hsolve

/-- An iteration fails only over values. -/
theorem computeStep_error (hs : s.Equipped) (h : computeStep s = .error failure s') :
    failure.Computational := by
  obtain ⟨tick, htick⟩ := hs.nextTick_total
  rcases hs.toPoised.computeStep_error htick h with hschedule | ⟨_, _, _, _, _, hreaches, hgroup⟩
  · obtain ⟨g, hg⟩ := hs.dependencies
    cases (currentSchedule_total hs.current hg).symm.trans hschedule
  · exact hs.computeGroup_error hreaches (iteration_of_nextTick htick) hgroup

/-- So does one to which the step is imposed. -/
theorem computeForced_error {step : α} (hs : s.Equipped)
    (h : computeForced step s = .error failure s') : failure.Computational := by
  rw [computeForced] at h
  split at h
  next => cases h
  next hfails =>
    cases h
    exact (hs.forced (some step)).computeStep_error hfails

end Equipped

/-! ### Trials -/

namespace Current

theorem computeForced {step : α} (hs : s.Current) (hsteady : s.Steady)
    (h : computeForced step s = .ok () s') : s'.Current := by
  rw [Simulation.computeForced] at h
  split at h
  next s₁ hstep =>
    cases h
    have hforced : Current { s with forcedStep := some step } := hs.congr rfl ⟨rfl, rfl, rfl⟩
    obtain ⟨_, _, _, _, _, hcomputed⟩ := hforced.computed (hsteady.forced (some step)) hstep
    exact hcomputed.congr rfl ⟨rfl, rfl, rfl⟩
  next => cases h

theorem probe {watch : Watch α} {lower time value : α} (hs : s.Current) (hsteady : s.Steady)
    (h : probe watch lower time s = .ok value s') : s'.Current := by
  simp only [Simulation.probe, EStateM.bind_eq_ok, model_eq_ok, EStateM.lift_eq_ok] at h
  obtain ⟨_, s₁, hcompute, _, s₁, ⟨rfl, rfl⟩, history, s₁, ⟨_, rfl⟩, _, s₂, hrewind, h⟩ := h
  have hback := (hs.computeForced hsteady hcompute).rewindStep hrewind
  cases hnewest : history.newest? with
  | some sample =>
      rw [hnewest] at h
      obtain ⟨_, rfl⟩ := EStateM.pure_eq_ok.mp h
      exact hback
  | none =>
      rw [hnewest] at h
      obtain ⟨_, _, _, h⟩ := EStateM.bind_eq_ok.mp h
      cases EStateM.throw_eq_ok.mp h

end Current

/-- What trials lead to: iterations that are computed and taken back, and probes of any signals at
any times. On the way the tracers may be told, and the time and the events marked. -/
inductive Tried (s : Simulation α ω) : Simulation α ω → Prop
  | refl : Tried s s
  | marked {s₁ : Simulation α ω} (h : Tried s s₁) (tracers : Dispatcher α) (time : α)
      (events : List (StateEvent α ω)) : Tried s { s₁ with tracers, time, events }
  | undone {s₁ s₂ s₃ : Simulation α ω} (h : Tried s s₁) (hok : computeStep s₁ = .ok () s₂)
      (hback : rewindStep s₂ = .ok () s₃) : Tried s s₃
  | probed {s₁ s₂ : Simulation α ω} {watch : Watch α} {lower time value : α} (h : Tried s s₁)
      (hok : probe watch lower time s₁ = .ok value s₂) : Tried s s₂

/-- After trials there is still everything that the next iteration needs. -/
theorem Tried.equipped (h : Tried s s') (hs : s.Equipped) : s'.Equipped := by
  -- a trial that was undone leaves the model and the count of the iterations
  have hundone {s₁ s₂ : Simulation α ω} (hs₁ : s₁.Equipped) (h : Undone s₁ s₂)
      (hcurrent : s₂.Current) : s₂.Equipped := by
    refine hs₁.congr h.poised hcurrent h.echoes.diagram ?_
    obtain ⟨_, _, _, _, rfl⟩ := h.echoes
    exact ⟨rfl, rfl, rfl⟩
  induction h with
  | refl => exact hs
  | marked h tracers time events ih =>
      exact ih.congr ⟨⟨ih.fitted, ih.graph, ih.kept⟩, ih.sized, ih.stocked⟩
        (ih.current.congr rfl ⟨rfl, rfl, rfl⟩) rfl ⟨rfl, rfl, rfl⟩
  | undone h hok hback ih =>
      obtain ⟨_, _, _, _, _, hcomputed⟩ := ih.current.computed ih.toSteady hok
      exact hundone ih (ih.toPoised.undone hok hback) (hcomputed.rewindStep hback)
  | probed h hok ih =>
      exact hundone (ih.forced none) (ih.toPoised.probe hok) (ih.current.probe ih.toSteady hok)

/-! ### Reachable simulations -/

/-- What a run has made ready has everything that an iteration needs, if the model is valid and has
dependencies, and its inputs have values. -/
theorem Reachable.equipped {d : Diagram α} (hs : s.Reachable) (hready : ready s = .ok () s₁)
    (hbuilt : d.Built) (hshape : d.SameShape s₁.diagram) (hvalid : s₁.diagram.validate = .ok ())
    (hgiven : s₁.InputsGiven) (hdependencies : ∃ g, s₁.diagram.dependencies s₁.iteration = .ok g)
    (hcountable : s₁.diagram.Countable) : s₁.Equipped := by
  exact ⟨hs.poised_of_ready hready, hs.current.of_ready hs.aligned hready,
    wound_of_ready hs.wound hready, hshape.wellFormed hbuilt.wellFormed,
    hshape.ported hbuilt.ported, hvalid, hgiven, hcountable, hdependencies⟩

/-- An iteration of a valid model with dependencies whose inputs have values fails only over
values, whether it is the next one, one at an imposed time, or one that comes after trials. Apart
from its samples, the model is one that calls have built. -/
theorem Reachable.computational {d : Diagram α} (hs : s.Reachable) (hready : ready s = .ok () s₁)
    (hbuilt : d.Built) (hshape : d.SameShape s₁.diagram) (hvalid : s₁.diagram.validate = .ok ())
    (hgiven : s₁.InputsGiven) (hdependencies : ∃ g, s₁.diagram.dependencies s₁.iteration = .ok g)
    (hcountable : s₁.diagram.Countable) (htried : Tried s₁ s₂) :
    (∀ failure s', computeStep s₂ = .error failure s' → failure.Computational) ∧
      ∀ step failure s', computeForced step s₂ = .error failure s' → failure.Computational := by
  have hequipped := htried.equipped <|
    hs.equipped hready hbuilt hshape hvalid hgiven hdependencies hcountable
  exact ⟨fun _ _ h => hequipped.computeStep_error h, fun _ _ _ h => hequipped.computeForced_error h⟩

/-- A turn in which no event fires only adds samples to a model with a clock. -/
theorem Reachable.sameShape_of_advance {clock : BlockId} (hs : s.Reachable)
    (hclock : s.diagram.clock = .ok clock) (h : advance s = .ok none s') :
    s.diagram.SameShape s'.diagram := by
  obtain ⟨tried, events, hattempt, _, ⟨_, hs'⟩ | ⟨_, _, hfired, _⟩⟩ := advance_ok hs.aligned h
  · obtain ⟨s₀, _, _, _, hready, _, hiterated, _⟩ := attempt_ok hs.aligned hattempt
    have hshape := hiterated.shape
    rw [(diagram_of_ready hclock hready).1] at hshape
    rw [hs']
    exact hshape
  · cases hfired

/-- So do several turns. -/
theorem Reachable.advances {run : Nat → Simulation α ω} {clock : BlockId} {n : Nat}
    (hs : (run 0).Reachable) (hclock : (run 0).diagram.clock = .ok clock)
    (h : ∀ k < n, advance (run k) = .ok none (run (k + 1))) :
    (run n).Reachable ∧ (run 0).diagram.SameShape (run n).diagram := by
  induction n with
  | zero => exact ⟨hs, .refl _⟩
  | succ n ih =>
      obtain ⟨hbefore, hshape⟩ := ih fun k hk => h k (Nat.lt_succ_of_lt hk)
      have hstep := h n (Nat.lt_succ_self n)
      have hclock' := hshape.clock.trans hclock
      exact ⟨hbefore.advanced hstep, hshape.trans (hbefore.sameShape_of_advance hclock' hstep)⟩

/-- A model that inverts the sum of the time and its input. A delay holds the sum at every other
iteration. -/
def invertedSum : Diagram ℚ :=
  (Diagram.performAll { diagram := .empty "m" ["x"] [] }
    [.addBlock ⟨0⟩ "k" (.clock 0 1), .addBlock ⟨0⟩ "t" .time, .addBlock ⟨0⟩ "a" (.adder 2),
      .addBlock ⟨0⟩ "d" .delay, .addBlock ⟨0⟩ "i" (.inverter (1 / 1000)),
      .connect ⟨0⟩ "t" "a" none none, .connect ⟨0⟩ "x" "a" none none,
      .connect ⟨0⟩ "a" "d" none none, .connect ⟨0⟩ "t" "d" none (some initialCondition),
      .connect ⟨0⟩ "a" "i" none none, .setRate ⟨4⟩ (some 2)]).diagram

theorem invertedSum_built : invertedSum.Built := by
  refine .performAll (.empty "m" ["x"] []) fun call hcall e => ?_
  simp only [List.mem_cons, List.not_mem_nil, or_false] at hcall
  obtain rfl | rfl | rfl | rfl | rfl | rfl | rfl | rfl | rfl | rfl | rfl := hcall <;> exact trivial

/-- A run of that model with -2 at its input, after some turns. -/
def invertedSumAfter : Nat → Simulation ℚ Unit
  | 0 => (setInput "x" (-2) (make { diagram := invertedSum.clearSignals } .standard ())).state
  | turns + 1 => (advance (invertedSumAfter turns)).state

theorem invertedSumAfter_reachable : (invertedSumAfter 2).Reachable ∧
    invertedSum.SameShape (invertedSumAfter 2).diagram := by
  let made : Simulation ℚ Unit := make { diagram := invertedSum.clearSignals } .standard ()
  have hcleared : invertedSum.SameShape made.diagram := invertedSum.sameShape_clearSignals
  have hmade : made.Reachable :=
    .make _ _ (hcleared.fitted invertedSum_built.fitted) invertedSum.unsampled_clearSignals
  obtain ⟨hgiven, hturns, hclock⟩ : (setInput "x" (-2) made).answer? = some () ∧
      (∀ k < 2, (advance (invertedSumAfter k)).answer? = some none) ∧
        (invertedSumAfter 0).diagram.clock.toOption = some ⟨1⟩ := by
    decide +kernel
  have hchange : Configured made (invertedSumAfter 0) :=
    setInput_configured (EStateM.Result.eq_ok hgiven)
  obtain ⟨hreachable, hshape⟩ := Reachable.advances (.configured hmade hchange)
    (Except.eq_ok_of_toOption hclock) fun k hk => EStateM.Result.eq_ok (hturns k hk)
  rw [hchange.diagram] at hshape
  exact ⟨hreachable, hcleared.trans hshape⟩

/-- With -2 at the input there is nothing to invert at the time 2, as a trial at the time 3/2 does
not tell. -/
theorem computational_invertedSum : ∃ (s s₁ s' s₁' : Simulation ℚ Unit)
    (failure failure₁ : Failure ℚ), s.Reachable ∧ ready s = .ok () s ∧ Tried s s₁ ∧
      computeStep s = .error failure s' ∧ failure.Computational ∧
        computeForced 1 s₁ = .error failure₁ s₁' ∧ failure₁.Computational := by
  let s := invertedSumAfter 2
  let s₁ := (probe ⟨"i", -1, .any⟩ 1 (3 / 2) s).state
  obtain ⟨hreachable, hshape⟩ := invertedSumAfter_reachable
  obtain ⟨hstarted, hinputs, hprobe, hstep, hforced⟩ : s.started = true ∧
      (∀ p ∈ s.diagram.portIds s.diagram.root .input,
        (s.diagram.port? p).map Port.name = some "x" ∧ s.inputs.lookup "x" = some (-2)) ∧
          (probe ⟨"i", -1, .any⟩ 1 (3 / 2) s).answer? = some (-1) ∧
            (computeStep s).answer? = none ∧ (computeForced 1 s₁).answer? = none := by
    decide +kernel
  have hready : ready s = .ok () s := ready_of_started hstarted
  have hvalid : s.diagram.validate = .ok () := Except.eq_ok_of_toOption (by decide +kernel)
  obtain ⟨g, hg, _⟩ : ∃ g, s.diagram.dependencies s.iteration = .ok g ∧ True :=
    Except.exists_ok_of_toOption (by decide +kernel)
  have hcomputational {s₂ : Simulation ℚ Unit} (h : Tried s s₂) :=
    hreachable.computational hready invertedSum_built hshape hvalid
      (fun p hp => ⟨"x", -2, hinputs p hp⟩) ⟨g, hg⟩ (fun _ _ _ _ _ _ => Exact.countsTo _) h
  have htried : Tried s s₁ := Tried.refl.probed (EStateM.Result.eq_ok hprobe)
  obtain ⟨failure, hfailure⟩ := EStateM.Result.eq_error hstep
  obtain ⟨failure₁, hfailure₁⟩ := EStateM.Result.eq_error hforced
  exact ⟨s, s₁, _, _, failure, failure₁, hreachable, hready, htried, hfailure,
    (hcomputational .refl).1 _ _ hfailure, hfailure₁, (hcomputational htried).2 _ _ _ hfailure₁⟩

end Simulation

end CausalBlocks
