import CausalBlocks.Proofs.Diagram.Retiming
import CausalBlocks.Proofs.Simulation.Probing
import CausalBlocks.Proofs.Simulation.Underway

/-!
# Signals that follow the time

What blocks without memory make of the output of a time block is a function of the time. Such
blocks are in no loop, and so each sample of their outputs is the value of that function at the
time of the sample, in whatever iteration and after whatever restart.
-/

namespace CausalBlocks

variable {α ω : Type}

/-- Whether an operator tells the time and the time since the clock started. -/
def Operator.tellsTime (op : Operator α) : Bool :=
  match op with
  | clock .. | time => true
  | _ => false

theorem Operator.neededInputs_of_tellsTime {op : Operator α} (h : op.tellsTime = true)
    (iteration : Nat) : op.neededInputs iteration = [] := by
  cases op <;> first
    | rfl
    | cases h

theorem Operator.Retimed.tellsTime {op op' : Operator α} (h : op.Retimed op')
    (hop : op.tellsTime = true) : op'.tellsTime = true := by
  obtain rfl | ⟨_, _, _, rfl, rfl⟩ := h
  · exact hop
  · rfl

theorem Operator.Retimed.eq_of_isStateless {op op' : Operator α} (h : op.Retimed op')
    (hop : op.isStateless = true) : op' = op := by
  obtain hsame | ⟨_, _, _, rfl, _⟩ := h
  · exact hsame
  · cases hop

theorem Operator.compute_of_tellsTime [Scalar α] {op : Operator α} {block : String} {tick : Tick α}
    {read : Reader α} {values : List α} (hop : op.tellsTime = true)
    (h : op.compute block tick read = .ok values) :
    values[0]? = some tick.time ∧ values[1]? = some (tick.time - tick.start) := by
  cases op <;> first
    | cases h; exact ⟨rfl, rfl⟩
    | cases hop

namespace Diagram

variable {d d' : Diagram α} {id : BlockId} {b : Block α} {p : PortId} {f : α → α → α}

/-- A block inside the model that computes at every iteration. -/
structure Prompt (d : Diagram α) (id : BlockId) (b : Block α) : Prop where
  inner : id ≠ d.root
  block : d.block? id = some b
  unrated : b.rate = none

theorem Prompt.retimed (h : d.Prompt id b) (hd : d.Retimed d') :
    ∃ b', d'.Prompt id b' ∧ b.operator.Retimed b'.operator := by
  obtain ⟨b', hb', hrate, hoperator⟩ := hd.block id b h.block
  exact ⟨b', ⟨h.inner, hb', hrate.trans h.unrated⟩, hoperator⟩

/-- What needs nothing does not need itself. -/
theorem not_needs_of_neededInputs {n : Nat} {g : DependencyGraph} (hb : d.block? id = some b)
    (hop : b.operator.neededInputs n = []) (hg : d.dependencies n = .ok g) :
    ¬g.Needs (.block id) (.block id) := by
  intro hneeds
  obtain ⟨v, hv, _⟩ := Relation.TransGen.head'_iff.mp hneeds
  cases (mem_influencersOf_iff hg).mp hv with
  | input _ hb' hneeded _ =>
      cases hb.symm.trans hb'
      rw [hop] at hneeded
      cases hneeded

/-- What tells the time needs nothing. -/
theorem not_needs_of_tellsTime {n : Nat} {g : DependencyGraph} (hb : d.block? id = some b)
    (hop : b.operator.tellsTime = true) (hg : d.dependencies n = .ok g) :
    ¬g.Needs (.block id) (.block id) :=
  not_needs_of_neededInputs hb (Operator.neededInputs_of_tellsTime hop n) hg

/-- Only an output that is there has samples. -/
theorem lt_length_of_sample? {index k : Nat} {x : Sample α} (hb : d.block? id = some b)
    (hx : d.sample? (.output id index) k = some x) : index < b.outputs.length := by
  obtain ⟨history, hhistory, _⟩ := Option.bind_eq_some_iff.mp hx
  obtain ⟨port, hport, _⟩ := Option.map_eq_some_iff.mp hhistory
  rw [port?_eq hb] at hport
  exact (List.getElem?_eq_some_iff.mp hport).1

variable [Scalar α]

/-- A port carries a function of the time at which the clock started and the time. -/
inductive Tracks (d : Diagram α) : PortId → (α → α → α) → Prop
  | time {id : BlockId} {b : Block α} (h : d.Prompt id b) (hop : b.operator.tellsTime = true) :
      Tracks d (.output id 0) fun _ time => time
  | sinceStart {id : BlockId} {b : Block α} (h : d.Prompt id b)
      (hop : b.operator.tellsTime = true) :
      Tracks d (.output id 1) fun start time => time - start
  | block {id : BlockId} {b : Block α} {index : Nat} {inputs : Nat → α → α → α}
      (h : d.Prompt id b) (hop : b.operator.isStateless = true)
      (hinputs : ∀ port driver, d.driverOf (.input id port) = .ok driver →
        Tracks d driver (inputs port)) :
      Tracks d (.output id index) fun start time =>
        b.operator.output index fun port => inputs port start time

namespace Tracks

theorem retimed (h : d.Tracks p f) (hd : d.Retimed d') : d'.Tracks p f := by
  induction h with
  | time h hop =>
      obtain ⟨b', h', hoperator⟩ := h.retimed hd
      exact .time h' (hoperator.tellsTime hop)
  | sinceStart h hop =>
      obtain ⟨b', h', hoperator⟩ := h.retimed hd
      exact .sinceStart h' (hoperator.tellsTime hop)
  | @block id b index inputs h hop _ ih =>
      obtain ⟨b', h', hoperator⟩ := h.retimed hd
      have hsame := hoperator.eq_of_isStateless hop
      rw [← hsame] at hop ⊢
      exact .block h' hop fun port driver hdriver =>
        ih port driver (hd.frame.symm.driverOf hdriver)

/-- A port that follows the time is an output of a block inside the model. -/
theorem exists_output (h : d.Tracks p f) : ∃ id b index, p = .output id index ∧ d.Prompt id b := by
  cases h with
  | time h _ | sinceStart h _ | block h _ _ => exact ⟨_, _, _, rfl, h⟩

theorem nodeOf_eq (h : d.Tracks p f) : d.nodeOf p = .block p.block := by
  obtain ⟨id, b, index, rfl, hb⟩ := h.exists_output
  exact if_neg hb.inner

/-- What follows the time does not need itself. -/
theorem not_needs {n : Nat} {g : DependencyGraph} (h : d.Tracks p f)
    (hg : d.dependencies n = .ok g) : ¬g.Needs (.block p.block) (.block p.block) := by
  induction h with
  | time hb hop => exact not_needs_of_tellsTime hb.block hop hg
  | sinceStart hb hop => exact not_needs_of_tellsTime hb.block hop hg
  | @block id b _ inputs hb hop hinputs ih =>
      intro hneeds
      obtain ⟨v, hv, hback⟩ := Relation.TransGen.head'_iff.mp hneeds
      cases (mem_influencersOf_iff hg).mp hv with
      | @input _ _ port driver _ _ _ hdriver =>
          -- the driver would need itself, by way of this block
          rw [(hinputs port driver hdriver).nodeOf_eq] at hv hback
          exact ih port driver hdriver (.tail' hback hv)

end Tracks

end Diagram

namespace Simulation

variable [Scalar α] {s s' : Simulation α ω} {tick : Tick α} {g : DependencyGraph} {n : Nat}
  {parts : List (List (PortId × Sample α))} {p : PortId} {f : α → α → α}

omit [Scalar α] in
/-- Only ports that iterations compute have samples. -/
theorem Sized.mem_computedPorts (hs : s.Sized) {k : Nat} {x : Sample α}
    (hx : s.diagram.sample? p k = some x) : p ∈ s.diagram.computedPorts := by
  obtain ⟨history, hhistory, hx⟩ := Option.bind_eq_some_iff.mp hx
  have hsize := hs p history hhistory
  by_contra hnot
  rw [if_neg hnot] at hsize
  obtain ⟨hlt, _⟩ := Array.getElem?_eq_some_iff.mp hx
  omega

omit [Scalar α] in
theorem mem_primitives_of_mem_computedPorts {d : Diagram α} {id : BlockId} {index : Nat}
    (h : .output id index ∈ d.computedPorts) : id ∈ d.primitives := by
  rcases List.mem_append.mp h with hinput | houtput
  · cases (Diagram.mem_portIds_iff.mp hinput).2.1
  · obtain ⟨id', hid', hp⟩ := List.mem_flatMap.mp houtput
    cases (Diagram.mem_portIds_iff.mp hp).1
    exact hid'

omit [Scalar α] in
/-- What can be read is a sample of the driver. -/
theorem readerOf_eq_ok {d : Diagram α} {id : BlockId} {port k : Nat} {value : α}
    (h : readerOf d id port k = .ok value) : ∃ driver x, d.driverOf (.input id port) = .ok driver ∧
      d.sample? driver k = some x ∧ x.value = value := by
  rw [readerOf] at h
  cases hsample : d.inputSample id port k with
  | error failure =>
      rw [hsample] at h
      cases h
  | ok x =>
      rw [hsample] at h
      obtain ⟨driver, hdriver, hsample⟩ := Except.bind_eq_ok.mp hsample
      obtain ⟨source, hsource, hsample⟩ := Except.bind_eq_ok.mp hsample
      refine ⟨driver, x, hdriver, ?_, Except.ok.inj h⟩
      rw [Diagram.sample?, Diagram.history?, Diagram.port_eq_ok.mp hsource]
      cases hx : source.history[k]? with
      | none =>
          rw [hx] at hsample
          cases hsample
      | some y =>
          rw [hx] at hsample
          cases hsample
          exact hx

/-- A block that does not need itself satisfies its equation. -/
theorem Iterated.satisfies_of_not_needs (h : Iterated s s' tick g.schedule parts) (hs : s.Sized)
    (hg : s.diagram.dependencies n = .ok g) {id : BlockId} {b : Block α} {index : Nat} {x : Sample α}
    (hb : s'.diagram.block? id = some b) (hnot : ¬g.Needs (.block id) (.block id))
    (hx : s'.diagram.sample? (.output id index) tick.iteration = some x) :
    s'.diagram.Satisfies tick id b := by
  have hid : id ∈ s.diagram.primitives := by
    rw [← h.shape.primitives]
    exact mem_primitives_of_mem_computedPorts ((h.sized hs).mem_computedPorts hx)
  have hsound := (DependencyGraph.describesNodes_of_dependencies hg).sound
  obtain ⟨b', hb', hsatisfies⟩ := h.satisfies hs hid fun ids hcycle =>
    DependencyGraph.notMem_of_cycle_mem_schedule hsound hnot hcycle
  cases hb.symm.trans hb'
  exact hsatisfies

/-- A block that computes at every iteration has in the newest one what its operator computes. -/
theorem Iterated.computes (h : Iterated s s' tick g.schedule parts) (hs : s.Sized)
    (hg : s.diagram.dependencies n = .ok g) {id : BlockId} {b : Block α} {index : Nat} {x : Sample α}
    (hb : s'.diagram.Prompt id b) (hnot : ¬g.Needs (.block id) (.block id))
    (hx : s'.diagram.sample? (.output id index) tick.iteration = some x) : ∃ values value,
      b.operator.compute (s'.diagram.pathOf id) tick (readerOf s'.diagram id) = .ok values ∧
        values[index]? = some value ∧ x = ⟨tick.time, value⟩ := by
  obtain ⟨values, hvalues, hlength, hsamples⟩ :=
    (h.satisfies_of_not_needs hs hg hb.block hnot hx).due (by rw [hb.unrated]; rfl)
  have hlt : index < values.length := by
    rw [hlength]
    exact Diagram.lt_length_of_sample? hb.block hx
  have hsame := hsamples index values[index] (List.getElem?_eq_getElem hlt)
  cases hx.symm.trans hsame
  exact ⟨values, values[index], hvalues, List.getElem?_eq_getElem hlt, rfl⟩

/-- The newest sample of a port that follows the time is the function at the time of the tick. -/
theorem Iterated.tracked (h : Iterated s s' tick g.schedule parts) (hs : s.Sized)
    (hg : s.diagram.dependencies n = .ok g) (hp : s'.diagram.Tracks p f) {x : Sample α}
    (hx : s'.diagram.sample? p tick.iteration = some x) :
    x = ⟨tick.time, f tick.start tick.time⟩ := by
  have hg' : s'.diagram.dependencies n = .ok g := (h.shape.dependencies n).trans hg
  have hnot := hp.not_needs hg'
  induction hp generalizing x with
  | time hb hop =>
      obtain ⟨values, value, hvalues, hvalue, rfl⟩ := h.computes hs hg hb hnot hx
      cases hvalue.symm.trans (Operator.compute_of_tellsTime hop hvalues).1
      rfl
  | sinceStart hb hop =>
      obtain ⟨values, value, hvalues, hvalue, rfl⟩ := h.computes hs hg hb hnot hx
      cases hvalue.symm.trans (Operator.compute_of_tellsTime hop hvalues).2
      rfl
  | @block id b index inputs hb hop hinputs ih =>
      obtain ⟨values, value, hvalues, hvalue, rfl⟩ := h.computes hs hg hb hnot hx
      have hread : ∀ port value, readerOf s'.diagram id port tick.iteration = .ok value →
          inputs port tick.start tick.time = value := by
        intro port value hread
        obtain ⟨driver, y, hdriver, hy, rfl⟩ := readerOf_eq_ok hread
        rw [ih port driver hdriver hy ((hinputs port driver hdriver).not_needs hg')]
      dsimp only
      rw [Operator.output_eq hop hvalues hread hvalue]

/-! ### Along a run -/

omit [Scalar α] in
theorem Current.of_iteration_eq_zero (hzero : s.iteration = 0) : s.Current := by
  intro k hk
  cases hzero.symm.trans hk

omit [Scalar α] in
theorem Current.congr (hs : s.Current) (hdiagram : s'.diagram = s.diagram)
    (hrest : s'.iteration = s.iteration ∧ s'.graph = s.graph ∧ s'.scheduler = s.scheduler) :
    s'.Current := by
  intro k hk
  rw [hrest.1] at hk
  rw [hdiagram, hrest.2.1, hrest.2.2]
  exact hs k hk

omit [Scalar α] in
/-- Taking an iteration back leaves what is kept. -/
theorem Current.rewindStep (hs : s.Current) (h : rewindStep s = .ok () s') : s'.Current := by
  cases h
  intro k hk
  -- the iteration that is taken back was a later one still
  have hiteration : s.iteration = (k + 1) + 2 := by
    change s.iteration - 1 = k + 2 at hk
    omega
  obtain ⟨g, hg, hkept⟩ := hs (k + 1) hiteration
  exact ⟨g, (s.diagram.sameShape_rewind.dependencies 1).trans hg, hkept⟩

/-- Making ready leaves what is kept, or there is no need of it yet. -/
theorem Current.of_ready (hs : s.Current) (haligned : s.Aligned)
    (h : ready s = .ok () s') : s'.Current := by
  have hprepared := haligned.ready h
  rcases hprepared.diagram with hsame | hzero
  · refine hs.congr hsame ?_
    rw [haligned.ready_rest h]
    exact ⟨rfl, rfl, rfl⟩
  · exact .of_iteration_eq_zero (hprepared.iteration.trans hzero)

/-- The iteration of a turn uses the schedule of its dependencies. -/
theorem Current.attempt (hs : s.Current) (haligned : s.Aligned)
    (h : attempt s = .ok () s') : ∃ s₀ tick g parts, ready s = .ok () s₀ ∧ Prepared s s₀ ∧
      s₀.diagram.dependencies s₀.iteration = .ok g ∧ Iterated s₀ s' tick g.schedule parts ∧
        s'.time = tick.time ∧ s'.Current := by
  obtain ⟨s₀, tick, groups, parts, hready, hprepared, hiterated, htime⟩ := attempt_ok haligned h
  obtain ⟨s₀', tick', s₁, hready', _, hcompute, hs'⟩ := attempt_eq_ok h
  cases hready.symm.trans hready'
  have hcurrent : (s₀.announced tick').Current :=
    (hs.of_ready haligned hready).congr rfl ⟨rfl, rfl, rfl⟩
  obtain ⟨_, g, _, hg, hcomputed, hcurrent'⟩ :=
    hcurrent.computed (hprepared.aligned.toSteady.announced tick') hcompute
  have hkept := hiterated.kept
  rw [hs', hcomputed.kept] at hkept
  cases hkept
  refine ⟨s₀, tick, g, parts, hready, hprepared, hg, hiterated, htime, ?_⟩
  rw [hs']
  exact hcurrent'

theorem Reachable.current (h : s.Reachable) : s.Current := by
  induction h with
  | made _ hfresh _ => exact .of_iteration_eq_zero hfresh.iteration
  | begun h hok => exact .of_iteration_eq_zero (h.begin hok).2
  | advanced h hok ih =>
      obtain ⟨tried, events, hattempt, _, ⟨_, hs'⟩ | ⟨_, _, _, _, _, hfired⟩⟩ :=
        advance_ok h.aligned hok
      · obtain ⟨_, _, _, _, _, _, _, _, _, hcurrent⟩ := ih.attempt h.aligned hattempt
        rw [hs']
        exact hcurrent
      · exact .of_iteration_eq_zero hfired.fresh.iteration
  | configured _ hchange ih =>
      refine ih.congr hchange.diagram ?_
      rw [hchange.rest]
      exact ⟨rfl, rfl, rfl⟩

/-- Every sample of a port that follows the time is a value of its function at the time of the
sample. -/
def Tracking (s : Simulation α ω) : Prop := ∀ p f, s.diagram.Tracks p f → ∀ (k : Nat) x,
  s.diagram.sample? p k = some x → ∃ start, x.value = f start x.time

omit [Scalar α] in
theorem Sized.sample?_eq_none (hs : s.Sized) {k : Nat} (hk : s.iteration ≤ k) :
    s.diagram.sample? p k = none := by
  cases hx : s.diagram.sample? p k with
  | none => rfl
  | some x =>
      have hcomputed := hs.mem_computedPorts hx
      obtain ⟨history, hhistory, hx⟩ := Option.bind_eq_some_iff.mp hx
      have hsize := hs p history hhistory
      rw [if_pos hcomputed] at hsize
      obtain ⟨hlt, _⟩ := Array.getElem?_eq_some_iff.mp hx
      omega

theorem Sized.tracking_of_iteration_eq_zero (hs : s.Sized) (hzero : s.iteration = 0) :
    s.Tracking := by
  intro p f _ k x hx
  rw [hs.sample?_eq_none (by omega)] at hx
  cases hx

/-- An iteration leaves the earlier samples as they are. -/
theorem Iterated.sample?_of_ne {groups : List Group} (h : Iterated s s' tick groups parts)
    (hs : s.Sized) {k : Nat} (hk : k ≠ tick.iteration) :
    s'.diagram.sample? p k = s.diagram.sample? p k := by
  by_cases hp : p ∈ parts.flatten.map Prod.fst
  · obtain ⟨⟨_, x⟩, hmem, rfl⟩ := List.mem_map.mp hp
    obtain ⟨history, hhistory, hsize, hnew⟩ := h.samples hs hmem
    rw [Diagram.sample?, Diagram.sample?, hnew, hhistory, Option.bind_some, Option.bind_some,
      Array.getElem?_push, if_neg (hsize.symm ▸ hk)]
  · rw [Diagram.sample?, Diagram.sample?, h.diagram, Diagram.history?_recordAll_of_notMem hp]

theorem Tracking.attempt (hs : s.Tracking) (hreachable : s.Reachable)
    (h : attempt s = .ok () s') : s'.Tracking := by
  obtain ⟨s₀, tick, g, parts, hready, hprepared, hg, hiterated, _⟩ :=
    hreachable.current.attempt hreachable.aligned h
  have hsized := hprepared.aligned.sized
  have hs₀ : s₀.Tracking := by
    rcases hprepared.diagram with hsame | hzero
    · rw [Tracking, hsame]
      exact hs
    · exact hsized.tracking_of_iteration_eq_zero (hprepared.iteration.trans hzero)
  intro p f hp k x hx
  by_cases hk : k = tick.iteration
  · subst hk
    rw [hiterated.tracked hsized hg hp hx]
    exact ⟨tick.start, rfl⟩
  · rw [hiterated.sample?_of_ne hsized hk] at hx
    exact hs₀ p f (hp.retimed hiterated.shape.symm.retimed) k x hx

end Simulation

end CausalBlocks
