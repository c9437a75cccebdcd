import CausalBlocks.Proofs.Scalar.Rational
import CausalBlocks.Proofs.Simulation.Reachable

/-!
# Block equations

After a turn in which no event fired, the newest samples of a block satisfy the
equation of its operator: they are what the operator makes of the newest samples of
its drivers, whatever the order of the schedule. A block that was not due repeats its
samples of the iteration before. Only blocks in loops are left out, which a solver
settles as a whole.
-/

namespace CausalBlocks

variable {α ω : Type}

namespace Diagram

/-- The sample of a port at an iteration. -/
def sample? (d : Diagram α) (p : PortId) (iteration : Nat) : Option (Sample α) :=
  (d.history? p).bind fun h => h[iteration]?

/-- The samples of a block at a tick are those that its operator makes of what its
inputs now carry, or if it is not due those of the iteration before. -/
structure Satisfies [Scalar α] (d : Diagram α) (tick : Tick α) (id : BlockId) (b : Block α) :
    Prop where
  due : mustCompute b.rate tick.iteration tick.time = true → ∃ values,
    b.operator.compute (d.pathOf id) tick (Simulation.readerOf d id) = .ok values ∧
      values.length = b.outputs.length ∧ ∀ (i : Nat) value, values[i]? = some value →
        d.sample? (.output id i) tick.iteration = some ⟨tick.time, value⟩
  held : mustCompute b.rate tick.iteration tick.time = false → ∀ i < b.outputs.length,
    ∃ before last, tick.iteration = before + 1 ∧
      d.sample? (.output id i) before = some last ∧
        d.sample? (.output id i) tick.iteration = some ⟨tick.time, last.value⟩

theorem exists_history_of_computed {d : Diagram α} {p : PortId} (h : p ∈ d.computedPorts) :
    ∃ history : History α, d.history? p = some history := by
  have hport : (d.port? p).isSome := by
    rcases List.mem_append.mp h with hinput | houtput
    · exact (mem_portIds_iff.mp hinput).2.2
    · obtain ⟨id, _, hp⟩ := List.mem_flatMap.mp houtput
      exact (mem_portIds_iff.mp hp).2.2
  obtain ⟨port, hport⟩ := Option.isSome_iff_exists.mp hport
  exact ⟨port.history, by rw [history?, hport, Option.map_some]⟩

end Diagram

namespace Simulation

variable [Scalar α] {s s' : Simulation α ω} {tick : Tick α} {groups : List Group}
  {parts : List (List (PortId × Sample α))}

theorem iteration_of_nextTick (h : s.nextTick = .ok tick) : tick.iteration = s.iteration := by
  obtain ⟨clock, _, h⟩ := Except.bind_eq_ok.mp h
  obtain ⟨⟨start, announced⟩, _, h⟩ := Except.bind_eq_ok.mp h
  cases hiteration : s.iteration with
  | zero =>
      rw [hiteration] at h
      cases h
      rfl
  | succ before =>
      rw [hiteration] at h
      obtain ⟨port, _, h⟩ := Except.bind_eq_ok.mp h
      split at h
      next => cases h
      next =>
        obtain ⟨step, _, h⟩ := Except.bind_eq_ok.mp h
        cases h
        rfl

namespace Iterated

/-- A port that got a sample had one for each iteration before. -/
theorem samples (h : Iterated s s' tick groups parts) (hs : s.Sized) {p : PortId} {x : Sample α}
    (hx : (p, x) ∈ parts.flatten) : ∃ history : History α, s.diagram.history? p = some history ∧
      history.size = tick.iteration ∧ s'.diagram.history? p = some (history.push x) := by
  have hcomputed : p ∈ s.diagram.computedPorts :=
    h.map_fst_perm.mem_iff.mp (List.mem_map_of_mem hx)
  obtain ⟨history, hhistory⟩ := Diagram.exists_history_of_computed hcomputed
  refine ⟨history, hhistory, ?_, ?_⟩
  · rw [hs p history hhistory, if_pos hcomputed, iteration_of_nextTick h.next]
  · rw [h.diagram, Diagram.history?_recordAll_of_mem h.nodup_map_fst hx, hhistory]
    rfl

theorem sample?_new (h : Iterated s s' tick groups parts) (hs : s.Sized) {p : PortId}
    {x : Sample α} (hx : (p, x) ∈ parts.flatten) :
    s'.diagram.sample? p tick.iteration = some x := by
  obtain ⟨history, _, hsize, hnew⟩ := h.samples hs hx
  rw [Diagram.sample?, hnew, ← hsize]
  exact Array.getElem?_push_size

/-- A sample that repeats the one before. -/
theorem sample?_held (h : Iterated s s' tick groups parts) (hs : s.Sized) {r : PortId × Sample α}
    (hr : r ∈ parts.flatten) (hheld : Held s.diagram tick.time r) : ∃ before last,
      tick.iteration = before + 1 ∧ s'.diagram.sample? r.1 before = some last ∧
        s'.diagram.sample? r.1 tick.iteration = some ⟨tick.time, last.value⟩ := by
  obtain ⟨history, hhistory, hsize, hnew⟩ := h.samples hs hr
  obtain ⟨_, last, hsame, hlast, hvalue⟩ := hheld
  cases hhistory.symm.trans hsame
  rw [History.newest?, Array.back?_eq_getElem?] at hlast
  obtain ⟨hlt, _⟩ := Array.getElem?_eq_some_iff.mp hlast
  refine ⟨history.size - 1, last, by omega, ?_, ?_⟩
  · rw [Diagram.sample?, hnew, Option.bind_some, Array.getElem?_push_lt hlt,
      ← Array.getElem?_eq_getElem hlt, hlast]
  · rw [h.sample?_new hs hr, hvalue]

/-- A primitive outside the loops is a group of its own. -/
theorem block_mem (h : Iterated s s' tick groups parts) {id : BlockId}
    (hid : id ∈ s.diagram.primitives) (hcycle : ∀ ids, .cycle ids ∈ groups → id ∉ ids) :
    .block id ∈ groups := by
  obtain ⟨group, hgroup, hmem⟩ := List.mem_flatMap.mp (h.covers.blocks.mem_iff.mpr hid)
  cases group with
  | block other =>
      cases List.mem_singleton.mp hmem
      exact hgroup
  | port p => cases hmem
  | cycle ids => exact absurd hmem (hcycle ids hgroup)

/-- The equation of a block holds in the end, whenever the schedule had it computed. -/
theorem satisfies (h : Iterated s s' tick groups parts) (hs : s.Sized) {id : BlockId}
    (hid : id ∈ s.diagram.primitives) (hcycle : ∀ ids, .cycle ids ∈ groups → id ∉ ids) :
    ∃ b, s'.diagram.block? id = some b ∧ s'.diagram.Satisfies tick id b := by
  obtain ⟨records, hrecords, hports, hobeys⟩ :=
    exists_part_of_mem h.fills (h.block_mem hid hcycle)
  obtain ⟨b, hb, hdue, hheld⟩ := hobeys.block id rfl
  have hback : s'.diagram.SameShape s.diagram := h.shape.symm
  obtain ⟨b', hb', hoperator, hrate, houtputs⟩ := hback.block? hb
  rw [← hrate] at hdue hheld
  rw [← hoperator, hback.pathOf] at hdue
  have hports : records.map Prod.fst = (List.range b'.outputs.length).map (.output id) := by
    rw [hports, houtputs]
    exact Diagram.portIds_eq hb .output
  refine ⟨b', hb', fun hyes => ?_, fun hno i hi => ?_⟩
  · obtain ⟨values, hvalues, rfl⟩ := hdue hyes
    have hlength := congrArg List.length hports
    rw [List.length_map, length_outputRecords, List.length_map, List.length_range] at hlength
    refine ⟨values, hvalues, hlength, fun i value hvalue => ?_⟩
    exact h.sample?_new hs (List.mem_flatten_of_mem hrecords (mem_outputRecords hvalue))
  · have hmem : PortId.output id i ∈ records.map Prod.fst := by
      rw [hports]
      exact List.mem_map_of_mem (List.mem_range.mpr hi)
    obtain ⟨r, hr, heq⟩ := List.mem_map.mp hmem
    rw [← heq]
    exact h.sample?_held hs (List.mem_flatten_of_mem hrecords hr) (hheld hno r hr)

end Iterated

/-- The newest iteration of a simulation is that of a tick, and satisfies the equation of
every primitive outside the loops of the schedule that was used. -/
structure Solved (s : Simulation α ω) (tick : Tick α) (groups : List Group) : Prop where
  schedule : s.scheduler.kept = some groups
  iteration : s.iteration = tick.iteration + 1
  time : s.time = tick.time
  equations : ∀ id ∈ s.diagram.primitives, (∀ ids, .cycle ids ∈ groups → id ∉ ids) →
    ∃ b, s.diagram.block? id = some b ∧ s.diagram.Satisfies tick id b

/-- A turn in which no event fired leaves a solved iteration at the next tick. -/
theorem Reachable.solved (hs : s.Reachable) (h : advance s = .ok none s') :
    ∃ s₀ tick groups, ready s = .ok () s₀ ∧ s₀.nextTick = .ok tick ∧ s'.Solved tick groups := by
  obtain ⟨tried, events, hattempt, _, ⟨_, hs'⟩ | ⟨_, _, hfired, _⟩⟩ := advance_ok hs.aligned h
  · obtain ⟨s₀, tick, groups, parts, hready, hprepared, hiterated, htime⟩ :=
      attempt_ok hs.aligned hattempt
    have hiteration : tried.iteration = tick.iteration + 1 := by
      rw [hiterated.rest, iteration_of_nextTick hiterated.next]
    rw [hs']
    refine ⟨s₀, tick, groups, hready, hiterated.next, hiterated.kept, hiteration, htime,
      fun id hid hcycle => ?_⟩
    have hid : id ∈ s₀.diagram.primitives := by
      rw [← hiterated.shape.primitives]
      exact hid
    exact hiterated.satisfies hprepared.aligned.sized hid hcycle
  · cases hfired

/-- A model with a block that computes at every other iteration. -/
def everyOther : Edit ℚ Unit := do
  Edit.addAll ⟨0⟩ [("t", .time), ("g", .gain 2)]
  Edit.connect ⟨0⟩ "t" "g" (some "OUT1") none
  Edit.setRate ⟨2⟩ (some 2)

theorem everyOther_fitted : Edit.Keeps Diagram.Fitted everyOther := by
  have hkept := (Block.fitted_lasting (α := ℚ)).keptByBuilding
  exact .bind (hkept.addAll _ _) fun _ => .bind (hkept.connect _ _ _ _ _) fun _ =>
    Edit.fitted_keptByTuning.setRate _ _

/-- Once begun, the block computes in the first turn and repeats its output in the second. -/
theorem solved_everyOther : ∃ s s' : Simulation ℚ Unit, s.Reachable ∧ advance s = .ok none s' ∧
    ∃ s₀ tick groups, ready s = .ok () s₀ ∧ s₀.nextTick = .ok tick ∧ s'.Solved tick groups := by
  let editor := (everyOther { diagram := .empty "m" [] [] }).state
  let made : Simulation ℚ Unit := make editor { Settings.standard with step := 1 } ()
  let begun := (begin made).state
  let first := (advance begun).state
  have hlawful : made.Lawful :=
    ⟨everyOther_fitted _ (Diagram.Built.empty "m" [] []).fitted, fun _ hmem => by cases hmem⟩
  have hbegun : begin made = .ok () begun := EStateM.Result.eq_ok (by decide +kernel)
  have hfirst : advance begun = .ok none first := EStateM.Result.eq_ok (by decide +kernel)
  have hsecond : advance first = .ok none (advance first).state :=
    EStateM.Result.eq_ok (by decide +kernel)
  have hreachable : first.Reachable := .advanced (.begun hlawful hbegun) hfirst
  exact ⟨first, _, hreachable, hsecond, hreachable.solved hsecond⟩

end Simulation

end CausalBlocks
