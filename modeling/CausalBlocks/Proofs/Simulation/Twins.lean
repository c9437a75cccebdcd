import CausalBlocks.Proofs.Diagram.Retiming
import CausalBlocks.Proofs.Simulation.Underway

/-!
# Runs of diagrams alike

Two simulations whose diagrams compute alike stay in step: what the first one records in an
iteration solves the equations of the second one, so that the second one succeeds and
records the same. A flattened diagram thus behaves like the one it was made of.
-/

namespace CausalBlocks

variable {α ω : Type}

namespace Diagram

variable {d d' e : Diagram α} {id : BlockId} {driver : PortId} {port iteration : Nat}

/-! ### Evaluations of diagrams alike -/

/-- Where one diagram has given samples for its ports, there are records of them. -/
theorem exists_records {ports : List PortId} (h : ∀ p ∈ ports, (d.sample? p iteration).isSome) :
    ∃ records : List (PortId × Sample α), records.map Prod.fst = ports ∧
      ∀ r ∈ records, d.sample? r.1 iteration = some r.2 := by
  induction ports with
  | nil => exact ⟨[], rfl, fun _ hr => by cases hr⟩
  | cons p rest ih =>
      obtain ⟨hfirst, hrest⟩ := List.forall_mem_cons.mp h
      obtain ⟨x, hx⟩ := Option.isSome_iff_exists.mp hfirst
      obtain ⟨records, hports, hsamples⟩ := ih hrest
      refine ⟨(p, x) :: records, ?_, List.forall_mem_cons.mpr ⟨hx, hsamples⟩⟩
      rw [List.map_cons, hports]

/-- A driver of a primitive's input is linked to it. -/
theorem WellFormed.linked_of_driverOf (h : d.WellFormed) (hid : id ∈ d.primitives)
    (hdriver : d.driverOf (.input id port) = .ok driver) :
    (d.incoming (.input id port)).isSome := by
  obtain ⟨hlive, hsource, harises⟩ := h.source_of_driverOf rfl hdriver
  rw [Option.isSome_iff_ne_none]
  intro hnone
  have hends := ((h.source?_eq_some_iff hlive).mp hsource).1
  cases hends.unique (.here hnone)
  have hroot : id = d.root := by simpa [isSource] using harises.2
  exact h.root_notMem_primitives (hroot ▸ hid)

/-- Two diagrams that compute alike and have the same samples where signals arise. -/
structure Mirrors (d e : Diagram α) : Prop where
  alike : d.Alike e
  first : d.WellFormed
  second : e.WellFormed
  same : ∀ p ∈ d.computedPorts, e.history? p = d.history? p

namespace Mirrors

variable (h : d.Mirrors e)
include h

theorem driverOf (hid : id ∈ d.primitives) (hdriver : d.driverOf (.input id port) = .ok driver) :
    e.driverOf (.input id port) = .ok driver :=
  (h.alike.driverOf_eq_ok_iff h.first h.second hid).mpr hdriver

/-- What can be read in the one diagram can be read in the other. -/
theorem inputSample {x : Sample α} (hid : id ∈ d.primitives)
    (hx : d.inputSample id port iteration = .ok x) : e.inputSample id port iteration = .ok x := by
  obtain ⟨driver, history, hdriver, hhistory, hx⟩ := inputSample_eq_ok.mp hx
  have hcomputed := h.first.mem_computedPorts_iff.mpr (h.first.source_of_driverOf rfl hdriver).2.2
  exact inputSample_eq_ok.mpr ⟨driver, history, h.driverOf hid hdriver,
    (h.same driver hcomputed).trans hhistory, hx⟩

theorem readerOf (hid : id ∈ d.primitives) (port iteration : Nat) :
    (Simulation.readerOf d id port iteration).Refines (Simulation.readerOf e id port iteration) :=
  Simulation.readerOf_refines_of_inputSample fun _ hx => h.inputSample hid hx

theorem history?_output (hid : id ∈ d.primitives) (hp : (d.port? (.output id port)).isSome) :
    e.history? (.output id port) = d.history? (.output id port) :=
  h.same _ (List.mem_append_right _ (List.mem_flatMap.mpr
    ⟨id, hid, mem_portIds_iff.mpr ⟨rfl, rfl, hp⟩⟩))

/-- Where a block satisfies its equation in the one diagram, it does so in the other. -/
theorem satisfies [Scalar α] {tick : Tick α} {b : Block α} (hid : id ∈ d.primitives)
    (hb : d.block? id = some b) (hsatisfies : d.Satisfies tick id b) :
    ∃ c, e.block? id = some c ∧ e.Satisfies tick id c := by
  obtain ⟨b', c, hb', hc, hwork⟩ := h.alike.work id (.inr hid)
  cases hb.symm.trans hb'
  have hlength : c.outputs.length = b.outputs.length := hwork.sameFace.length .output
  have hsample : ∀ i, i < b.outputs.length → ∀ iteration,
      e.sample? (.output id i) iteration = d.sample? (.output id i) iteration := by
    intro i hi iteration
    rw [sample?, sample?, h.history?_output hid]
    rw [port?_eq (q := .output id i) hb, Block.ports, List.getElem?_eq_getElem hi]
    rfl
  refine ⟨c, hc, fun hdue => ?_, fun hidle i hi => ?_⟩
  · rw [hwork.rate] at hdue
    obtain ⟨values, hvalues, hcount, hsamples⟩ := hsatisfies.due hdue
    refine ⟨values, ?_, hcount.trans hlength.symm, fun i value hvalue => ?_⟩
    · rw [hwork.operator, h.alike.path id hid]
      exact Operator.compute_refines (h.readerOf hid) values hvalues
    · rw [hsample i (hcount ▸ (List.getElem?_eq_some_iff.mp hvalue).1)]
      exact hsamples i value hvalue
  · rw [hwork.rate] at hidle
    rw [hlength] at hi
    obtain ⟨before, last, hiteration, hbefore, hnow⟩ := hsatisfies.held hidle i hi
    refine ⟨before, last, hiteration, ?_, ?_⟩ <;> rwa [hsample i hi]

/-- What the one diagram evaluates to, the other can be given as well. -/
theorem evaluated [Scalar α] {inputs : List (String × α)} {tick : Tick α}
    (heval : d.Evaluated inputs tick d') : ∃ e', e.Evaluated inputs tick e' ∧ d'.Mirrors e' := by
  have hports : ∀ p ∈ e.computedPorts, (d'.sample? p tick.iteration).isSome := by
    intro p hp
    obtain ⟨history, x, _, hsize, hpushed⟩ := heval.grown p (h.alike.mem_computedPorts.mp hp)
    rw [sample?, hpushed, Option.bind_some, ← hsize, Array.getElem?_push_size]
    rfl
  obtain ⟨records, hrecords, hsamples⟩ := exists_records hports
  have hshape : e.SameShape (e.recordAll records) := e.sameShape_recordAll records
  have hhistory : ∀ p ∈ d.computedPorts, (e.recordAll records).history? p = d'.history? p := by
    intro p hp
    have hmem := h.alike.mem_computedPorts.mpr hp
    rw [← hrecords] at hmem
    obtain ⟨⟨_, x⟩, hx, rfl⟩ := List.mem_map.mp hmem
    have hnodup : (records.map Prod.fst).Nodup := by
      rw [hrecords]
      exact e.nodup_computedPorts h.second.nodup_primitives
    rw [history?_recordAll_of_mem hnodup hx, heval.history?_eq hp (hsamples _ hx), h.same _ hp]
  have hmirrors : d'.Mirrors (e.recordAll records) := by
    refine ⟨h.alike.congr heval.shape hshape, heval.shape.wellFormed h.first,
      hshape.wellFormed h.second, ?_⟩
    rw [heval.shape.computedPorts]
    exact hhistory
  refine ⟨_, ⟨hshape, fun p hp => ?_, fun p hp => ?_, fun id hid => ?_⟩, hmirrors⟩
  · have hp := h.alike.mem_computedPorts.mp hp
    rw [h.same p hp, hhistory p hp]
    exact heval.grown p hp
  · rw [h.alike.portIds_root] at hp
    rw [h.alike.portName? (.inl (mem_portIds_iff.mp hp).1), sample?,
      hhistory p (List.mem_append_left _ hp)]
    exact heval.fed p hp
  · have hid := h.alike.mem_primitives.mp hid
    obtain ⟨b, hb, hsatisfies⟩ := heval.satisfies id hid
    rw [← heval.shape.primitives] at hid
    exact hmirrors.satisfies hid hb hsatisfies

end Mirrors

/-- Without samples, diagrams that compute alike mirror each other. -/
theorem Alike.mirrors (h : d.Alike e) (hd : d.WellFormed) (he : e.WellFormed) (hnone : d.Unsampled)
    (hnone' : e.Unsampled) : d.Mirrors e := by
  refine ⟨h, hd, he, fun p hp => ?_⟩
  obtain ⟨history, hhistory⟩ := exists_history_of_computed hp
  obtain ⟨history', hhistory'⟩ := exists_history_of_computed (h.mem_computedPorts.mpr hp)
  rw [hhistory, hhistory', hnone.history? hhistory, hnone'.history? hhistory']

end Diagram

namespace Simulation

variable {s s' t t' : Simulation α ω} {clock : BlockId} {tick : Tick α} {n : Nat}

/-! ### The place in time -/

theorem clockParameters_alike (h : s.diagram.Alike t.diagram)
    (hclock : clock ∈ s.diagram.primitives) {parameters : α × α}
    (hok : s.clockParameters clock = .ok parameters) :
    t.clockParameters clock = .ok parameters := by
  obtain ⟨b, c, hb, hc, hwork⟩ := h.work clock (.inr hclock)
  obtain ⟨b', hb', hoperator⟩ := clockParameters_eq_ok.mp hok
  cases hb.symm.trans hb'
  exact clockParameters_eq_ok.mpr ⟨c, hc, hwork.operator.trans hoperator⟩

theorem stepAfter_mirrored (h : s.diagram.Mirrors t.diagram) (hclock : clock ∈ s.diagram.primitives)
    (hforced : s.forcedStep = none) (hforced' : t.forcedStep = none) {announced step : α}
    {iteration : Nat} (hok : s.stepAfter clock announced iteration = .ok step) :
    t.stepAfter clock announced iteration = .ok step := by
  have hclock' := h.alike.mem_primitives.mpr hclock
  rw [stepAfter_unforced (h.first.mem_primitives_iff.mp hclock).1 hforced] at hok
  rw [stepAfter_unforced (h.second.mem_primitives_iff.mp hclock').1 hforced']
  by_cases hlinked : (s.diagram.incoming (.input clock 0)).isSome
  · rw [if_pos hlinked] at hok
    cases hx : s.diagram.inputSample clock 0 iteration with
    | error failure =>
        rw [hx] at hok
        cases hok
    | ok x =>
        rw [hx] at hok
        -- what has a driver is linked, also where there is less in between
        obtain ⟨driver, _, hdriver, _⟩ := Diagram.inputSample_eq_ok.mp hx
        rw [if_pos (h.second.linked_of_driverOf hclock' (h.driverOf hclock hdriver)),
          h.inputSample hclock hx]
        exact hok
  · rw [if_neg hlinked] at hok
    rw [if_neg, hok]
    rw [Option.isSome_iff_ne_none, not_not] at hlinked ⊢
    exact h.alike.loose _ hlinked

/-- The next iteration of simulations that mirror each other is at the same place in time. -/
theorem nextTick_mirrored [Scalar α] (h : s.diagram.Mirrors t.diagram)
    (hfound : s.diagram.clock = .ok clock) (hclock : s.clock = some clock)
    (hclock' : t.clock = some clock) (hforced : s.forcedStep = none)
    (hforced' : t.forcedStep = none) (hiteration : t.iteration = s.iteration)
    (hok : s.nextTick = .ok tick) : t.nextTick = .ok tick := by
  have hprimitive := Diagram.mem_primitives_of_clock hfound
  exact nextTick_refines hclock hclock' hiteration
    (fun _ => clockParameters_alike h.alike hprimitive)
    (fun port hport => h.history?_output hprimitive (by rw [hport]; rfl))
    (fun _ _ _ => stepAfter_mirrored h hprimitive hforced hforced') tick hok

/-! ### Twins -/

variable [Scalar α]

/-- Two simulations underway in the same iteration, whose diagrams mirror each other and have
no cycles in their dependencies. -/
structure Twins (s t : Simulation α ω) : Prop where
  first : s.Underway
  second : t.Underway
  mirrors : s.diagram.Mirrors t.diagram
  iteration : t.iteration = s.iteration
  inputs : t.inputs = s.inputs
  acyclic : ∀ k g, s.diagram.dependencies k = .ok g → g.Acyclic

namespace Twins

theorem nextTick (h : Twins s t) (hok : s.nextTick = .ok tick) : t.nextTick = .ok tick := by
  obtain ⟨clock, hfound, hclock⟩ := h.first.clock
  obtain ⟨clock', hfound', hclock'⟩ := h.second.clock
  cases (h.mirrors.alike.clock hfound).symm.trans hfound'
  exact nextTick_mirrored h.mirrors hfound hclock hclock' h.first.unforced h.second.unforced
    h.iteration hok

/-- Where the first one takes a step, so does the second one, and they remain twins. -/
theorem step (h : Twins s t) (hok : step s = .ok () s') :
    s.diagram.SameShape s'.diagram ∧ ∃ t', Simulation.step t = .ok () t' ∧ Twins s' t' := by
  obtain ⟨tick, g, parts, hg, hiterated, hfirst⟩ := h.first.step_ok hok
  have hacyclic := h.acyclic _ g hg
  obtain ⟨order, _, hschedule⟩ := Diagram.exists_ordered hg hacyclic
  have hsingle : ∀ ids, .cycle ids ∉ g.schedule := by
    intro ids hmem
    rw [hschedule] at hmem
    obtain ⟨node, _, hnode⟩ := List.mem_map.mp hmem
    cases node <;> cases hnode
  obtain ⟨e', heval, hmirrors⟩ := h.mirrors.evaluated (hiterated.evaluated h.first.sized hsingle)
  obtain ⟨g', hg', hacyclic'⟩ :=
    h.mirrors.alike.dependencies h.mirrors.first h.mirrors.second hg hacyclic
  rw [← h.iteration] at hg'
  rw [← h.inputs] at heval
  obtain ⟨t', ht', hhistories⟩ :=
    h.second.step_total (h.nextTick hiterated.next) hg' hacyclic' heval
  obtain ⟨tick', _, parts', _, hiterated', hsecond⟩ := h.second.step_ok ht'
  have hdiagrams : s'.diagram.Mirrors t'.diagram := by
    refine ⟨h.mirrors.alike.congr hiterated.shape hiterated'.shape, hfirst.wellFormed,
      hsecond.wellFormed, fun p hp => ?_⟩
    rw [← hmirrors.same p hp]
    rw [hiterated.shape.computedPorts] at hp
    exact hhistories p (h.mirrors.alike.mem_computedPorts.mpr hp)
  refine ⟨hiterated.shape, t', ht', hfirst, hsecond, hdiagrams, ?_, ?_, fun k g => ?_⟩
  · rw [hiterated.rest, hiterated'.rest, h.iteration]
  · rw [hiterated.rest, hiterated'.rest]
    exact h.inputs
  · rw [hiterated.shape.dependencies]
    exact h.acyclic k g

theorem takeSteps (h : Twins s t) (hok : takeSteps n s = .ok () s') :
    s.diagram.SameShape s'.diagram ∧ ∃ t', Simulation.takeSteps n t = .ok () t' ∧ Twins s' t' := by
  -- on the steps left
  induction n generalizing s t with
  | zero =>
      obtain ⟨_, rfl⟩ := EStateM.pure_eq_ok.mp hok
      exact ⟨.refl _, t, rfl, h⟩
  | succ n ih =>
      obtain ⟨s₁, hstep, hrest⟩ := h.first.takeSteps_succ_ok.mp hok
      obtain ⟨hshape, t₁, ht₁, htwins⟩ := h.step hstep
      obtain ⟨hshape', t', ht', htwins'⟩ := ih htwins hrest
      exact ⟨hshape.trans hshape', t', h.second.takeSteps_succ_ok.mpr ⟨t₁, ht₁, ht'⟩, htwins'⟩

end Twins

/-! ### Beginning as twins -/

/-- Apart from the model, everything is as in another simulation on which a run without events
depends. -/
structure SetUpLike (s t : Simulation α ω) : Prop where
  step : t.settings.step = s.settings.step
  inputs : t.inputs = s.inputs
  events : t.events = s.events
  start : t.firstStart = s.firstStart

/-- Where a run of the first one begins, so does a run of the second one. -/
theorem Eventless.begin_twins (hs : s.Eventless) (ht : t.Eventless)
    (halike : s.diagram.Alike t.diagram) (hsetup : SetUpLike s t) (hclock : s.diagram.clock = .ok clock)
    (hacyclic : ∀ k g, s.diagram.dependencies k = .ok g → g.Acyclic) (hok : begin s = .ok () s') :
    s.diagram.SameShape s'.diagram ∧ ∃ t', begin t = .ok () t' ∧ Twins s' t' := by
  obtain ⟨_, s₁, hreset, hprepare⟩ := EStateM.bind_eq_ok.mp hok
  obtain ⟨hstartable, hfirst, hdiagram, hinputs, hiteration⟩ := hs.begun hclock hreset hprepare
  obtain ⟨_, hsame, hfresh, hcleared, _, hs₁⟩ := hs.reset_total
  cases hreset.symm.trans hsame
  obtain ⟨t₁, hreset', hfresh', hcleared', _, ht₁⟩ := ht.reset_total
  have hshape : s.diagram.SameShape s₁.diagram := hcleared ▸ s.diagram.sameShape_clearSignals
  have hshape' : t.diagram.SameShape t₁.diagram := hcleared' ▸ t.diagram.sameShape_clearSignals
  have hmirrors : s₁.diagram.Mirrors t₁.diagram :=
    (halike.congr hshape hshape').mirrors (hshape.wellFormed hs.wellFormed)
      (hshape'.wellFormed ht.wellFormed) hfresh.unsampled hfresh'.unsampled
  have hclock' := halike.clock hclock
  have htick : ∃ tick, ({ t₁ with clock := some clock } : Simulation α ω).nextTick = .ok tick := by
    let s₂ : Simulation α ω := { s₁ with clock := some clock }
    have hmirrors₂ : s₂.diagram.Mirrors t₁.diagram := hmirrors
    obtain ⟨tick, htick⟩ := hstartable.tick
    refine ⟨tick, nextTick_mirrored hmirrors₂ hstartable.found rfl rfl ?_ ?_ ?_ htick⟩
    · change s₁.forcedStep = none
      rw [hs₁]
    · rw [ht₁]
    · exact hfresh'.iteration.trans hfresh.iteration.symm
  have hstartable' : t₁.Startable clock := by
    have hvalid := hmirrors.alike.validate hstartable.valid
    refine ⟨hmirrors.alike.clock hstartable.found, ?_, hvalid, htick⟩
    have hstep := hstartable.step
    rw [hs₁] at hstep
    rw [ht₁, hsetup.step]
    exact hstep
  obtain ⟨t', hprepare'⟩ := hstartable'.prepare_total
  obtain ⟨_, hsecond, hdiagram', hinputs', hiteration'⟩ := ht.begun hclock' hreset' hprepare'
  refine ⟨hdiagram ▸ s.diagram.sameShape_clearSignals, t',
    EStateM.bind_eq_ok.mpr ⟨(), t₁, hreset', hprepare'⟩, hfirst, hsecond, ?_,
    hiteration'.trans hiteration.symm, hinputs'.trans (hsetup.inputs.trans hinputs.symm),
    fun k g => ?_⟩
  · rw [hdiagram, hdiagram', ← hcleared, ← hcleared']
    exact hmirrors
  · rw [hdiagram, Diagram.dependencies_clearSignals]
    exact hacyclic k g

end Simulation

end CausalBlocks
