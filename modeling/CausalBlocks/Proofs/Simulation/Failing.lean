import CausalBlocks.Proofs.Diagram.Frame
import CausalBlocks.Proofs.Failing
import CausalBlocks.Proofs.Simulation.Inspection
import CausalBlocks.Proofs.Simulation.Probing

/-!
# What a failed step leaves

A group of the schedule either adds its samples or fails before it adds any. An iteration
that fails therefore leaves one sample at each output of the groups before the one that
failed, and nothing takes them away again.
-/

namespace CausalBlocks

variable {α ω : Type} [Scalar α]

theorem mustCompute_zero (rate : Option α) (time : α) : mustCompute rate 0 time = true := by
  cases rate <;> simp [mustCompute]

namespace Simulation

variable {s s' s₀ s₁ : Simulation α ω} {failure : Failure α} {tick : Tick α} {id : BlockId}
  {p : PortId}

/-! ### Groups -/

/-- Every port of a list has a sample, unless nothing has been computed yet. -/
def Repeatable (d : Diagram α) (tick : Tick α) (ports : List PortId) : Prop :=
  tick.iteration ≠ 0 → ∀ p ∈ ports, ∃ (h : History α) (last : Sample α),
    d.history? p = some h ∧ h.newest? = some last

omit [Scalar α] in
theorem Repeatable.extend {d d' : Diagram α} {ports : List PortId} (h : Repeatable d tick ports)
    (hd : d.Extends d') : Repeatable d' tick ports := by
  intro hlater p hp
  obtain ⟨history, last, hhistory, hlast⟩ := h hlater p hp
  obtain ⟨history', hhistory', hkeep⟩ := hd.keeps p history hhistory
  rw [History.newest?, Array.back?_eq_getElem?] at hlast
  obtain ⟨hlt, _⟩ := Array.getElem?_eq_some_iff.mp (hkeep _ _ hlast)
  refine ⟨history', history'[history'.size - 1], hhistory', ?_⟩
  rw [History.newest?, Array.back?_eq_getElem?, Array.getElem?_eq_getElem (by omega)]

omit [Scalar α] in
theorem record_error {x : Sample α} (h : edit (.record p x) s = .error failure s') : s' = s := by
  rw [edit, Edit.record, Edit.modifyPort_apply] at h
  split at h
  next _ _ heditor =>
    split at heditor <;> cases heditor
    cases h
  next _ _ heditor =>
    split at heditor <;> cases heditor
    cases h
    rfl

omit [Scalar α] in
theorem model_bind {β : Type} (f : Diagram α → Run α ω β) (s : Simulation α ω) :
    (model >>= f) s = f s.diagram s := rfl

theorem isDue_error (h : isDue id tick s = .error failure s') : s' = s := by
  rw [isDue, model_bind, EStateM.bind_eq_error] at h
  rcases h with h | ⟨_, _, _, h⟩
  · exact (EStateM.lift_eq_error.mp h).2
  · cases EStateM.pure_eq_error.mp h

theorem length_values {b : Block α} {values : List α} {d : Diagram α} {read : Reader α}
    {path : String} (hfitted : d.Fitted) (hb : d.block? id = some b)
    (hvalues : b.operator.compute path tick read = .ok values) :
    values.length = b.outputs.length := by
  rw [Operator.compute_ensures_length values hvalues, hfitted id b hb ?_]
  rw [Block.isComposite]
  cases hoperator : b.operator <;> try rfl
  rw [hoperator] at hvalues
  cases hvalues

/-- An operator that fails has not given any output a value. -/
theorem applyOperator_error (hfitted : s.diagram.Fitted)
    (h : applyOperator id tick s = .error failure s') :
    Recorded s s' [] ∧ ∀ b, s.diagram.block? id = some b →
      b.operator.compute (s.diagram.pathOf id) tick (readerOf s.diagram id) = .error failure := by
  rw [applyOperator, model_bind, EStateM.bind_eq_error] at h
  rcases h with h | ⟨b, s, hb, h⟩
  · obtain ⟨hnone, rfl⟩ := EStateM.lift_eq_error.mp h
    refine ⟨.refl _, fun b hb => ?_⟩
    cases hnone.symm.trans (Diagram.block_eq_ok.mpr hb)
  obtain ⟨hb, rfl⟩ := EStateM.lift_eq_ok.mp hb
  have hb := Diagram.block_eq_ok.mp hb
  rcases EStateM.bind_eq_error.mp h with hannounce | ⟨_, s₁, hannounce, h⟩
  · obtain ⟨_, hok⟩ := announce_total id b.operator tick s
    cases hok.symm.trans hannounce
  have hsaid := announce_ok hannounce
  rcases EStateM.bind_eq_error.mp h with h | ⟨values, s₁, hlift, hset⟩
  · obtain ⟨hcompute, rfl⟩ := EStateM.lift_eq_error.mp h
    refine ⟨hsaid, fun b' hb' => ?_⟩
    cases hb.symm.trans hb'
    exact hcompute
  · obtain ⟨hvalues, rfl⟩ := EStateM.lift_eq_ok.mp hlift
    have hb₁ : s₁.diagram.block? id = some b := by
      rw [hsaid.diagram]
      exact hb
    obtain ⟨_, hok⟩ := setOutputs_total tick.time hb₁ (length_values hfitted hb hvalues)
    cases hok.symm.trans hset

omit [Scalar α] in
theorem holdOutputs_error (hdue : tick.iteration ≠ 0) {time : α}
    (hrepeat : Repeatable s.diagram tick (s.diagram.portIds id .output))
    (h : holdOutputs id time s = .error failure s') : s' = s ∧ s.diagram.block? id = none := by
  cases hb : s.diagram.block? id with
  | some b =>
      obtain ⟨_, hok⟩ := holdOutputs_total time hb (hrepeat hdue)
      cases hok.symm.trans h
  | none =>
      refine ⟨?_, rfl⟩
      rw [holdOutputs, model_bind, EStateM.bind_eq_error] at h
      rcases h with h | ⟨b, _, hok, _⟩
      · exact (EStateM.lift_eq_error.mp h).2
      · obtain ⟨hok, _⟩ := EStateM.lift_eq_ok.mp hok
        cases hb.symm.trans (Diagram.block_eq_ok.mp hok)

/-- A block fails only because its operator does, before it adds a sample. -/
theorem computeBlock_error (hfitted : s.diagram.Fitted)
    (hrepeat : Repeatable s.diagram tick (s.diagram.portIds id .output))
    (h : computeBlock id tick s = .error failure s') :
    Recorded s s' [] ∧ ∀ b, s.diagram.block? id = some b →
      b.operator.compute (s.diagram.pathOf id) tick (readerOf s.diagram id) = .error failure := by
  rcases EStateM.bind_eq_error.mp h with hnone | ⟨due, s₁, hcheck, hblock⟩
  · rw [isDue_error hnone]
    refine ⟨.refl s, fun b hb => ?_⟩
    cases (isDue_apply hb).symm.trans hnone
  obtain ⟨b, _, rfl, rfl⟩ := isDue_eq_ok hcheck
  rcases EStateM.ite_eq_error.mp hblock with ⟨_, happly⟩ | ⟨hidle, hhold⟩
  · exact applyOperator_error hfitted happly
  · have hlater : tick.iteration ≠ 0 := by
      intro hzero
      rw [hzero] at hidle
      exact hidle (mustCompute_zero _ _)
    obtain ⟨hsame, hnone⟩ := holdOutputs_error hlater hrepeat hhold
    rw [hsame]
    refine ⟨.refl _, fun b hb => ?_⟩
    cases hnone.symm.trans hb

omit [Scalar α] in
theorem feedInput_error (h : feedInput p tick s = .error failure s') : s' = s := by
  rcases EStateM.bind_eq_error.mp h with h | ⟨_, s, hget, h⟩
  · cases EStateM.get_eq_error.mp h
  obtain ⟨rfl, rfl⟩ := EStateM.get_eq_ok.mp hget
  rcases EStateM.ite_eq_error.mp h with ⟨_, h⟩ | ⟨_, h⟩
  · rcases EStateM.bind_eq_error.mp h with h | ⟨port, s, hlift, h⟩
    · exact (EStateM.lift_eq_error.mp h).2
    · obtain ⟨_, rfl⟩ := EStateM.lift_eq_ok.mp hlift
      cases hvalue : s.inputs.lookup port.name with
      | some value =>
          rw [hvalue] at h
          exact record_error h
      | none =>
          rw [hvalue] at h
          cases h
          rfl
  · cases EStateM.pure_eq_error.mp h

/-- A member of a solved loop, with the one output that the loop gives a value, gets it. -/
theorem settleMember_total {value : α} (hports : s.diagram.portIds id .output = [.output id 0])
    (hrepeat : Repeatable s.diagram tick [.output id 0]) :
    ∃ s', settleMember tick id value s = .ok () s' := by
  obtain ⟨b, hb⟩ : ∃ b, s.diagram.block? id = some b := by
    cases hb : s.diagram.block? id with
    | some b => exact ⟨b, rfl⟩
    | none =>
        rw [Diagram.portIds, hb] at hports
        cases hports
  refine EStateM.bind_total (isDue_apply hb) ?_
  split
  next =>
    have hport : (s.diagram.port? (.output id 0)).isSome :=
      (Diagram.mem_portIds_iff.mp (hports ▸ List.mem_singleton_self (PortId.output id 0))).2.2
    obtain ⟨s', hok, _⟩ := record_total (x := ⟨tick.time, value⟩) hport
    exact ⟨s', hok⟩
  next hidle =>
    refine holdOutputs_total tick.time hb ?_
    rw [hports]
    refine hrepeat fun hzero => hidle ?_
    rw [hzero]
    exact mustCompute_zero _ _

/-- The members of a solved loop all get their samples, so a loop fails only because it cannot be
solved. -/
theorem computeLoop_error {ids : List BlockId} (hfitted : s.diagram.Fitted)
    (hrepeat : Repeatable s.diagram tick (s.diagram.groupOutputs (.cycle ids)))
    (h : computeLoop ids tick s = .error failure s') :
    s' = s ∧ s.diagram.solveLoop ids tick.iteration = .error failure := by
  rw [computeLoop, model_bind, EStateM.bind_eq_error] at h
  rcases h with h | ⟨values, s, hlift, hsettle⟩
  · exact (EStateM.lift_eq_error.mp h).symm
  obtain ⟨hvalues, rfl⟩ := EStateM.lift_eq_ok.mp hlift
  obtain ⟨_, hports⟩ := solveLoop_ok hfitted hvalues
  let invariant (rest : List (BlockId × α)) (s₁ : Simulation α ω) : Prop := ∀ x ∈ rest,
    s₁.diagram.portIds x.1 .output = [.output x.1 0] ∧ Repeatable s₁.diagram tick [.output x.1 0]
  have hinit : invariant (ids.zip values) s := by
    intro x hx
    have hid : x.1 ∈ ids := (List.of_mem_zip hx).1
    refine ⟨hports x.1 hid, fun hlater p hp => hrepeat hlater p ?_⟩
    exact List.mem_flatMap.mpr ⟨x.1, hid, by rw [Diagram.nodeOutputs, hports x.1 hid]; exact hp⟩
  have hstep : ∀ x rest s₁, invariant (x :: rest) s₁ →
      ∃ s₂, settleMember tick x.1 x.2 s₁ = .ok () s₂ ∧ invariant rest s₂ := by
    intro x rest s₁ hall
    obtain ⟨⟨hx, hrepeat⟩, hrest⟩ := List.forall_mem_cons.mp hall
    obtain ⟨s₂, hok⟩ : ∃ s₂, settleMember tick x.1 x.2 s₁ = .ok () s₂ :=
      settleMember_total hx hrepeat
    obtain ⟨_, hrecorded, _⟩ := settleMember_ok hx hok
    refine ⟨s₂, hok, fun y hy => ?_⟩
    obtain ⟨hports, hrepeat⟩ := hrest y hy
    exact ⟨(hrecorded.keeps.shape.portIds _ _).trans hports, hrepeat.extend hrecorded.keeps⟩
  obtain ⟨_, hok, _⟩ := EStateM.forM_total hstep hinit
  cases hok.symm.trans hsettle

/-- A group that fails has not added a sample. -/
theorem computeGroup_error {group : Group} (hfitted : s.diagram.Fitted)
    (hrepeat : Repeatable s.diagram tick (s.diagram.groupOutputs group))
    (h : computeGroup tick group s = .error failure s') : Recorded s s' [] := by
  cases group with
  | block id => exact (computeBlock_error hfitted hrepeat h).1
  | port p =>
      rw [feedInput_error h]
      exact .refl s
  | cycle ids =>
      rw [(computeLoop_error hfitted hrepeat h).1]
      exact .refl s

/-! ### Iterations -/

variable {groups : List Group} {parts : List (List (PortId × Sample α))}

/-- What an interrupted iteration leaves: samples of the groups before the one that failed, if it
came to computing groups at all. The number of the iteration is as before. -/
structure Interrupted (s s' : Simulation α ω) (parts : List (List (PortId × Sample α))) :
    Prop where
  recorded : ∃ s₁, Echoes Renewing s s₁ ∧ Recorded s₁ s' parts.flatten
  computed : parts = [] ∨ ∃ step tick done group rest,
    nextTick { s with forcedStep := step } = .ok tick ∧
      s.diagram.Covers (done ++ group :: rest) ∧ List.Forall₂
        (Fills s.diagram.groupOutputs (GroupObeys s.inputs s.diagram tick) s'.diagram) done parts

omit [Scalar α] in
theorem currentGraph_error {n : Nat} (h : currentGraph n s = .error failure s') : s' = s := by
  have hrenew (h : renewGraph n s = .error failure s') : s' = s := by
    rw [renewGraph, model_bind, EStateM.bind_eq_error] at h
    rcases h with h | ⟨_, _, _, h⟩
    · exact (EStateM.lift_eq_error.mp h).2
    · rcases EStateM.bind_eq_error.mp h with h | ⟨_, _, _, h⟩
      · cases EStateM.modify_eq_error.mp h
      · cases EStateM.pure_eq_error.mp h
  rcases EStateM.bind_eq_error.mp h with hget | ⟨_, s, hget, hchoice⟩
  · cases EStateM.get_eq_error.mp hget
  · obtain ⟨rfl, rfl⟩ := EStateM.get_eq_ok.mp hget
    cases hgraph : s.graph with
    | none => exact hrenew (by simpa only [hgraph] using hchoice)
    | some g =>
        cases hpolicy : s.scheduler.policy.recomputesAt n with
        | true => exact hrenew (by simpa only [hgraph, hpolicy] using hchoice)
        | false =>
            simp only [hgraph, hpolicy] at hchoice
            cases EStateM.pure_eq_error.mp hchoice

omit [Scalar α] in
theorem currentSchedule_error {n : Nat} (h : currentSchedule n s = .error failure s') :
    s' = s := by
  rcases EStateM.bind_eq_error.mp h with hgraph | ⟨_, _, _, h⟩
  · exact currentGraph_error hgraph
  · rcases EStateM.bind_eq_error.mp h with h | ⟨_, _, _, h⟩
    · cases EStateM.get_eq_error.mp h
    · rcases EStateM.bind_eq_error.mp h with h | ⟨_, _, _, h⟩
      · cases EStateM.modify_eq_error.mp h
      · cases EStateM.pure_eq_error.mp h

omit [Scalar α] in
/-- Every port that a schedule computes can repeat its last sample. -/
theorem Sized.repeatable (hs : s.Sized) (htick : tick.iteration = s.iteration)
    (hcovers : s.diagram.Covers groups) {group : Group} (hgroup : group ∈ groups) :
    Repeatable s.diagram tick (s.diagram.groupOutputs group) := by
  intro hlater p hp
  have hcomputed : p ∈ s.diagram.computedPorts :=
    hcovers.outputs.mem_iff.mp (List.mem_flatMap.mpr ⟨group, hgroup, hp⟩)
  obtain ⟨history, hhistory⟩ := Diagram.exists_history_of_computed hcomputed
  have hsize := hs p history hhistory
  rw [if_pos hcomputed] at hsize
  refine ⟨history, history[history.size - 1], hhistory, ?_⟩
  rw [History.newest?, Array.back?_eq_getElem?, Array.getElem?_eq_getElem (by omega)]

/-- An iteration has computed some groups of its schedule and comes to the next one. -/
structure Reaches (s : Simulation α ω) (tick : Tick α) (done : List Group) (group : Group)
    (rest : List Group) (parts : List (List (PortId × Sample α))) (s₂ : Simulation α ω) : Prop where
  schedule : ∃ s₁, currentSchedule s.iteration s = .ok (done ++ group :: rest) s₁
  covers : s.diagram.Covers (done ++ group :: rest)
  recorded : ∃ s₁, Echoes Renewing s s₁ ∧ Recorded s₁ s₂ parts.flatten
  fills : List.Forall₂ (Fills s.diagram.groupOutputs (GroupObeys s.inputs s.diagram tick)
    s₂.diagram) done parts

namespace Reaches

variable {done rest : List Group} {group : Group} {s₂ : Simulation α ω}
  (h : Reaches s tick done group rest parts s₂)
include h

theorem diagram : s₂.diagram = s.diagram.recordAll parts.flatten := by
  obtain ⟨s₁, hechoes, hrecorded⟩ := h.recorded
  rw [hrecorded.diagram, hechoes.diagram]

theorem inputs : s₂.inputs = s.inputs := by
  obtain ⟨s₁, ⟨_, _, _, _, rfl⟩, hrecorded⟩ := h.recorded
  rw [hrecorded.rest]

theorem extends_diagram : s.diagram.Extends s₂.diagram := by
  rw [h.diagram]
  exact Diagram.extends_recordAll _ _

theorem repeatable (hs : s.Sized) (htick : tick.iteration = s.iteration) :
    Repeatable s₂.diagram tick (s₂.diagram.groupOutputs group) := by
  rw [h.extends_diagram.shape.groupOutputs]
  exact (hs.repeatable htick h.covers (List.mem_append_right done List.mem_cons_self)).extend
    h.extends_diagram

end Reaches

/-- An iteration that has its place in time fails because it has no schedule, or because of the
group that it comes to. -/
theorem Poised.computeStep_error (hs : s.Poised) (htick : s.nextTick = .ok tick)
    (h : computeStep s = .error failure s') :
    currentSchedule s.iteration s = .error failure s' ∨ ∃ done group rest parts s₂,
      Reaches s tick done group rest parts s₂ ∧ computeGroup tick group s₂ = .error failure s' := by
  rw [computeStep_of_ok htick] at h
  rcases EStateM.bind_eq_error.mp h with hschedule | ⟨groups, s₁, hschedule, h⟩
  · exact .inl hschedule
  obtain ⟨hcovers, _, _, _⟩ := currentSchedule_ok hs.graph hs.kept hschedule
  obtain ⟨g, hs₁, hkept⟩ := currentSchedule_keeps hschedule
  have hechoes : Echoes Renewing s s₁ :=
    ⟨s.editor.journal, some g, some groups, hs.stocked.kept hkept, hs₁⟩
  have hdiagram := hechoes.diagram
  have hinputs : s₁.inputs = s.inputs := by rw [hs₁]
  rcases EStateM.bind_eq_error.mp h with hgroups | ⟨_, _, _, hcount⟩
  · obtain ⟨done, group, rest, s₂, rfl, hdone, hgroup⟩ := EStateM.forM_eq_error hgroups
    have hnodup := hcovers.outputs.nodup_iff.mpr hcovers.nodup
    rw [List.flatMap_append, List.nodup_append', ← hdiagram] at hnodup
    obtain ⟨parts, hrecorded, hfills⟩ :=
      computeGroups_ok_of_nodup (hdiagram ▸ hs.fitted) hnodup.1 hdone
    rw [hdiagram, hinputs] at hfills
    exact .inr ⟨done, group, rest, parts, s₂,
      ⟨⟨s₁, hschedule⟩, hcovers, ⟨s₁, hechoes, hrecorded⟩, hfills⟩, hgroup⟩
  · cases EStateM.modify_eq_error.mp hcount

/-- An iteration that fails is interrupted. -/
theorem Poised.interrupted (hs : s.Poised) (h : computeStep s = .error failure s') :
    ∃ parts, Interrupted s s' parts := by
  cases htick : s.nextTick with
  | error failure' =>
      rw [computeStep_of_error htick] at h
      cases h
      exact ⟨[], ⟨s, .refl _ s, .refl s⟩, .inl rfl⟩
  | ok tick =>
      rcases hs.computeStep_error htick h with
        hschedule | ⟨done, group, rest, parts, s₂, hreaches, hgroup⟩
      · rw [currentSchedule_error hschedule]
        exact ⟨[], ⟨s, .refl _ s, .refl s⟩, .inl rfl⟩
      · -- the group that fails adds nothing to what those before it added
        have hstop := computeGroup_error (hreaches.extends_diagram.shape.fitted hs.fitted)
          (hreaches.repeatable hs.sized (iteration_of_nextTick htick)) hgroup
        have hfills := hreaches.fills
        rw [← show s'.diagram = s₂.diagram from hstop.diagram] at hfills
        obtain ⟨s₁, hechoes, hrecorded⟩ := hreaches.recorded
        have hall := hrecorded.trans hstop
        rw [List.append_nil] at hall
        exact ⟨parts, ⟨s₁, hechoes, hall⟩,
          .inr ⟨s.forcedStep, tick, done, group, rest, htick, hreaches.covers, hfills⟩⟩

omit [Scalar α] in
theorem Recorded.forced {s s' : Simulation α ω} {records : List (PortId × Sample α)}
    (h : Recorded s s' records) (step : Option α) :
    Recorded { s with forcedStep := step } { s' with forcedStep := step } records :=
  ⟨h.diagram, by rw [h.rest]⟩

theorem Interrupted.forced (h : Interrupted s s' parts) (step : Option α) :
    Interrupted { s with forcedStep := step } { s' with forcedStep := step } parts := by
  obtain ⟨s₁, hechoes, hrecorded⟩ := h.recorded
  exact ⟨⟨_, hechoes.forced step, hrecorded.forced step⟩, h.computed⟩

/-- What is interrupted after things were tried out is as if nothing had been tried out. -/
theorem Interrupted.of_echoes (h : Interrupted s₁ s' parts) (hechoes : Echoes Renewing s s₁) :
    Interrupted s s' parts := by
  obtain ⟨s₂, hlater, hrecorded⟩ := h.recorded
  refine ⟨⟨s₂, hechoes.trans hlater, hrecorded⟩, h.computed.imp_right ?_⟩
  have hinputs : s₁.inputs = s.inputs := by
    obtain ⟨_, _, _, _, rfl⟩ := hechoes
    rfl
  rintro ⟨step, tick, done, group, rest, htick, hcovers, hfills⟩
  rw [hechoes.diagram] at hcovers
  rw [hechoes.diagram, hinputs] at hfills
  exact ⟨step, tick, done, group, rest, (hechoes.forced step).nextTick ▸ htick, hcovers, hfills⟩

/-- The same where the step to the iteration is imposed. -/
theorem Poised.interrupted_forced {step : α} (hs : s.Poised)
    (h : computeForced step s = .error failure s') :
    ∃ parts, Interrupted { s with forcedStep := none } s' parts := by
  rw [computeForced] at h
  split at h
  next => cases h
  next s₁ hstep =>
    cases h
    obtain ⟨parts, hinterrupted⟩ := (hs.forced (some step)).interrupted hstep
    exact ⟨parts, hinterrupted.forced none⟩

namespace Interrupted

theorem iteration (h : Interrupted s s' parts) : s'.iteration = s.iteration := by
  obtain ⟨s₁, hechoes, hrecorded⟩ := h.recorded
  rw [hrecorded.rest]
  exact hechoes.iteration

theorem diagram (h : Interrupted s s' parts) :
    s'.diagram = s.diagram.recordAll parts.flatten := by
  obtain ⟨s₁, hechoes, hrecorded⟩ := h.recorded
  rw [hrecorded.diagram, hechoes.diagram]

/-- The ports that were computed before the failure are outputs of the schedule, and each was
computed once. -/
theorem nodup_map_fst (h : Interrupted s s' parts) : (parts.flatten.map Prod.fst).Nodup ∧
    ∀ p ∈ parts.flatten.map Prod.fst, p ∈ s.diagram.computedPorts := by
  rcases h.computed with rfl | ⟨_, _, done, group, rest, _, hcovers, hfills⟩
  · exact ⟨.nil, fun p hp => by cases hp⟩
  · have hnodup := hcovers.outputs.nodup_iff.mpr hcovers.nodup
    rw [List.flatMap_append] at hnodup
    rw [map_fst_flatten hfills]
    refine ⟨(List.nodup_append'.mp hnodup).1, fun p hp => hcovers.outputs.mem_iff.mp ?_⟩
    rw [List.flatMap_append]
    exact List.mem_append_left _ hp

/-- A port that was computed before the failure is a sample ahead. -/
theorem ahead (h : Interrupted s s' parts) {p : PortId} {x : Sample α}
    (hp : (p, x) ∈ parts.flatten) : ∃ history : History α, s.diagram.history? p = some history ∧
      s'.diagram.history? p = some (history.push x) := by
  obtain ⟨hnodup, hcomputed⟩ := h.nodup_map_fst
  obtain ⟨history, hhistory⟩ :=
    Diagram.exists_history_of_computed (hcomputed p (List.mem_map_of_mem hp))
  refine ⟨history, hhistory, ?_⟩
  rw [h.diagram, Diagram.history?_recordAll_of_mem hnodup hp, hhistory, Option.map_some]

theorem same (h : Interrupted s s' parts) {p : PortId} (hp : p ∉ parts.flatten.map Prod.fst) :
    s'.diagram.history? p = s.diagram.history? p := by
  rw [h.diagram]
  exact Diagram.history?_recordAll_of_notMem hp

/-- The model is as it was before only if nothing was computed before the failure. -/
theorem diagram_eq_iff (h : Interrupted s s' parts) :
    s'.diagram = s.diagram ↔ parts.flatten = [] := by
  constructor
  · refine fun hsame => List.eq_nil_iff_forall_not_mem.mpr fun ⟨p, x⟩ hp => ?_
    obtain ⟨history, hhistory, hpushed⟩ := h.ahead hp
    rw [hsame, hhistory] at hpushed
    have hsize := congrArg Array.size (Option.some.inj hpushed)
    rw [Array.size_push] at hsize
    omega
  · intro hnone
    rw [h.diagram, hnone]
    rfl

theorem echoes (h : Interrupted s s' parts) (hnone : parts.flatten = []) :
    Echoes Renewing s s' := by
  obtain ⟨s₁, hechoes, hrecorded⟩ := h.recorded
  have hdiagram := hrecorded.diagram
  rw [hnone] at hdiagram
  refine hechoes.trans ⟨s'.editor.journal, s₁.graph, s₁.scheduler.kept, .inr ⟨rfl, rfl⟩, ?_⟩
  have heditor : s'.editor = { s₁.editor with journal := s'.editor.journal } := by
    change s'.editor = ⟨s₁.diagram, s'.editor.journal⟩
    rw [show s₁.diagram = s'.diagram from hdiagram.symm]
    rfl
  rw [← heditor]
  exact hrecorded.rest

end Interrupted

/-! ### Trials -/

section Trials

variable {base : Simulation α ω}

/-- What was tried out either leaves nothing or fails in an interrupted iteration. -/
abbrev TriedOut (base : Simulation α ω) {β : Type} (r : EStateM.Result (Failure α) (Simulation α ω) β) :
    Prop := r.Ends (Undone base) fun s' => ∃ parts, Interrupted base s' parts

theorem Undone.interrupted (h : Undone base s) : ∃ parts, Interrupted base s parts :=
  ⟨[], ⟨s, h.echoes, .refl s⟩, .inl rfl⟩

omit [Scalar α] in
theorem Undone.unforced (h : Undone base s) (hbase : base.forcedStep = none) :
    { s with forcedStep := none } = s := by
  obtain ⟨_, _, _, _, rfl⟩ := h.echoes
  rw [← hbase]

/-- A signal of the model can be looked at whatever is tried out. -/
theorem Undone.probe (h : Undone base s) (hbase : base.forcedStep = none) {watch : Watch α}
    {history : History α} (hsignal : base.diagram.signalHistory watch.signal = .ok history)
    (lower time : α) : TriedOut base (probe watch lower time s) := by
  refine EStateM.Ends.bind (P := fun _ => True) ?_ fun _ s₁ hcompute _ => ?_
  · cases hcompute : computeForced (time - lower) s with
    | ok _ s₁ => trivial
    | error failure s' =>
        obtain ⟨parts, hinterrupted⟩ := h.poised.interrupted_forced hcompute
        rw [h.unforced hbase] at hinterrupted
        exact ⟨parts, hinterrupted.of_echoes h.echoes⟩
  have hback : Undone base (rewindStep s₁).state := by
    have hrewind : rewindStep s₁ = .ok () (rewindStep s₁).state := rfl
    have hundone := h.poised.undone_forced hcompute hrewind
    rw [h.unforced hbase] at hundone
    exact ⟨hundone.poised, h.echoes.trans hundone.echoes⟩
  have hshape := (Trial.computeForced h.poised.toSteady hcompute).shape
  rw [h.echoes.diagram] at hshape
  obtain ⟨history', hsignal'⟩ := hshape.sameFrame.signalHistory hsignal
  rw [model_bind, EStateM.bind_of_ok (EStateM.lift_eq_ok.mpr ⟨hsignal', rfl⟩)]
  refine EStateM.Ends.bind (P := Undone base) hback fun _ s₂ _ hs₂ => ?_
  cases history'.newest? with
  | some sample => exact hs₂
  | none => exact hs₂.interrupted

/-- So it is with any search for a crossing. -/
theorem Undone.run (h : Undone base s) (hbase : base.forcedStep = none) {watch : Watch α}
    {history : History α} (hsignal : base.diagram.signalHistory watch.signal = .ok history)
    (lower : α) (search : Search α) :
    TriedOut base (search.run (Simulation.probe watch lower) s) := by
  induction search generalizing s with
  | found time => exact h
  | probe time next ih =>
      exact EStateM.Ends.bind (h.probe hbase hsignal lower time) fun value s₁ _ h₁ => ih value h₁

theorem Undone.locate (h : Undone base s) (hbase : base.forcedStep = none)
    {candidate : Candidate α} {history : History α}
    (hsignal : base.diagram.signalHistory candidate.watch.signal = .ok history) (lower : α) :
    TriedOut base (locate lower candidate s) :=
  EStateM.Ends.bind (P := Undone base) (x := get) h fun _ _ _ h₁ =>
    EStateM.Ends.bind (h₁.run hbase hsignal lower _) fun _ _ _ h₂ => h₂

theorem approach_ends {first : Candidate α} {candidates : List (Candidate α)}
    (h : Undone base (rewindStep s).state) (hbase : base.forcedStep = none)
    (hsignals : ∀ c ∈ candidates, ∃ history,
      base.diagram.signalHistory c.watch.signal = .ok history) :
    (approach first candidates s).Ends (fun _ => True)
      fun s' => ∃ parts, Interrupted base s' parts := by
  refine EStateM.Ends.bind (P := Undone base) h fun _ s₁ _ h₁ => ?_
  have hlocate : TriedOut base (candidates.mapM (locate first.bracket.left.time) s₁) :=
    EStateM.Ends.mapM (fun c hc s₂ h₂ => by
      obtain ⟨history, hhistory⟩ := hsignals c hc
      exact h₂.locate hbase hhistory _) h₁
  refine EStateM.Ends.bind hlocate fun located s₂ _ h₂ => ?_
  refine EStateM.Ends.bind (P := fun _ => True) ?_ fun _ _ _ _ => trivial
  generalize hcompute : computeForced _ s₂ = r
  cases r with
  | ok _ s₃ => trivial
  | error failure s' =>
      obtain ⟨parts, hinterrupted⟩ := h₂.poised.interrupted_forced hcompute
      rw [h₂.unforced hbase] at hinterrupted
      exact ⟨parts, hinterrupted.of_echoes h₂.echoes⟩

end Trials

/-! ### Turns -/

/-- The reasons for which the iteration of a turn cannot be computed: it cannot be computed at
once, or a crossing cannot be located, or the iteration that ends there cannot be computed. -/
inductive Breaks (s : Simulation α ω) (failure : Failure α) (s' : Simulation α ω) : Prop
  | attempt (h : attempt s = .error failure s')
  | approach {tried s₁ : Simulation α ω} {first : Candidate α} {rest : List (Candidate α)}
      (hattempt : Simulation.attempt s = .ok () tried)
      (hinspect : inspectEvents tried = .ok (first :: rest) s₁)
      (h : Simulation.approach first (first :: rest) s₁ = .error failure s')

/-- The reasons for which a turn fails after its iteration was computed: an event watches what is
not there, or an event that happens fails. -/
inductive Declines (s : Simulation α ω) (failure : Failure α) (s' : Simulation α ω) : Prop
  | inspection {tried : Simulation α ω} (hattempt : attempt s = .ok () tried)
      (h : inspectEvents tried = .error failure s')
  | conclusion {tried s₁ s₂ : Simulation α ω} {first : Candidate α} {rest : List (Candidate α)}
      {time : α} {index : Nat} (hattempt : attempt s = .ok () tried)
      (hinspect : inspectEvents tried = .ok (first :: rest) s₁)
      (happroach : approach first (first :: rest) s₁ = .ok (time, index) s₂)
      (h : conclude time index s₂ = .error failure s')

theorem publishSample_error : publishSample s ≠ .error failure s' := by
  obtain ⟨_, hok⟩ := publishSample_total s
  rw [hok]
  exact fun h => by cases h

theorem step_eq_error : step s = .error failure s' ↔ advance s = .error failure s' := by
  change EStateM.map (fun _ => PUnit.unit) advance s = _ ↔ _
  rw [EStateM.map]
  cases advance s with
  | ok _ _ => simp
  | error _ _ => simp

/-- A step fails for one of these reasons. -/
theorem advance_eq_error : advance s = .error failure s' ↔
    Breaks s failure s' ∨ Declines s failure s' := by
  constructor
  · intro h
    rcases EStateM.bind_eq_error.mp h with hattempt | ⟨_, tried, hattempt, h⟩
    · exact .inl (.attempt hattempt)
    rcases EStateM.bind_eq_error.mp h with hprocess | ⟨fired, s₁, _, hpublish⟩
    · rcases EStateM.bind_eq_error.mp hprocess with hinspect | ⟨candidates, s₁, hinspect, h⟩
      · exact .inr (.inspection hattempt hinspect)
      cases candidates with
      | nil => cases EStateM.pure_eq_error.mp h
      | cons first rest =>
          rcases EStateM.bind_eq_error.mp h with hhandle | ⟨_, _, _, h⟩
          · rw [handleCrossing_eq] at hhandle
            rcases EStateM.bind_eq_error.mp hhandle with happroach | ⟨_, s₂, happroach, hconclude⟩
            · exact .inl (.approach hattempt hinspect happroach)
            · exact .inr (.conclusion hattempt hinspect happroach hconclude)
          · cases EStateM.pure_eq_error.mp h
    · rcases EStateM.ite_eq_error.mp hpublish with ⟨_, h⟩ | ⟨_, h⟩
      · rcases EStateM.bind_eq_error.mp h with h | ⟨_, _, _, h⟩
        · exact absurd h publishSample_error
        · cases EStateM.pure_eq_error.mp h
      · cases EStateM.pure_eq_error.mp h
  · -- what happens before a failure is the same whatever fails
    have hprocess {tried : Simulation α ω} (hattempt : attempt s = .ok () tried)
        (h : processEvents tried = .error failure s') : advance s = .error failure s' :=
      EStateM.bind_eq_error.mpr (.inr ⟨(), tried, hattempt, EStateM.bind_of_error h⟩)
    have hhandle {tried s₁ : Simulation α ω} {first : Candidate α} {rest : List (Candidate α)}
        (hattempt : attempt s = .ok () tried)
        (hinspect : inspectEvents tried = .ok (first :: rest) s₁)
        (h : handleCrossing first (first :: rest) s₁ = .error failure s') :
        advance s = .error failure s' := by
      refine hprocess hattempt (EStateM.bind_eq_error.mpr (.inr ⟨_, s₁, hinspect, ?_⟩))
      exact EStateM.bind_of_error h
    rintro ((hattempt | ⟨hattempt, hinspect, h⟩) | (⟨hattempt, h⟩ | ⟨hattempt, hinspect, happroach, h⟩))
    · exact EStateM.bind_of_error hattempt
    · refine hhandle hattempt hinspect ?_
      rw [handleCrossing_eq]
      exact EStateM.bind_of_error h
    · exact hprocess hattempt (EStateM.bind_of_error h)
    · refine hhandle hattempt hinspect ?_
      rw [handleCrossing_eq]
      exact EStateM.bind_eq_error.mpr (.inr ⟨_, _, happroach, h⟩)

/-! ### What a failed step leaves -/

/-- The simulation that a failed step leaves if it leaves the model alone: the tracers were told,
the time and the marks of the events may be those of the attempt. -/
def despite (s s' : Simulation α ω) : Simulation α ω :=
  { s with tracers := s'.tracers, time := s'.time, events := s'.events }

theorem Interrupted.despite (h : Interrupted s₁ s' parts)
    (hs₁ : s₁ = { s with tracers := s₁.tracers, time := s₁.time, events := s₁.events }) :
    Interrupted (s.despite s') s' parts := by
  have hrest : s'.tracers = s₁.tracers ∧ s'.time = s₁.time ∧ s'.events = s₁.events := by
    obtain ⟨s₂, hechoes, hrecorded⟩ := h.recorded
    obtain ⟨_, _, _, _, rfl⟩ := hechoes
    rw [hrecorded.rest]
    exact ⟨rfl, rfl, rfl⟩
  have hsame : s.despite s' = s₁ := by
    rw [Simulation.despite, hrest.1, hrest.2.1, hrest.2.2, ← hs₁]
  rw [hsame]
  exact h

theorem attempt_error (hready : ready s = .ok () s₀)
    (h : attempt s = .error failure s') : s' = s₀ ∨
      ∃ tick, computeStep (s₀.announced tick) = .error failure s' := by
  rw [attempt, EStateM.bind_of_ok hready] at h
  rcases EStateM.bind_eq_error.mp h with hget | ⟨_, s₀, hget, hrest⟩
  · cases EStateM.get_eq_error.mp hget
  obtain ⟨rfl, rfl⟩ := EStateM.get_eq_ok.mp hget
  rcases EStateM.bind_eq_error.mp hrest with hnone | ⟨tick, s₀, hnext, hcompute⟩
  · exact .inl (EStateM.lift_eq_error.mp hnone).2
  obtain ⟨_, rfl⟩ := EStateM.lift_eq_ok.mp hnext
  -- reading the number of the iteration and telling it the tracers do not fail
  change (computeStep >>= fun _ => _) (s₀.announced tick) = _ at hcompute
  rcases EStateM.bind_eq_error.mp hcompute with hfailed | ⟨_, _, _, hdone⟩
  · exact .inr ⟨tick, hfailed⟩
  · cases EStateM.modify_eq_error.mp hdone

omit [Scalar α] in
/-- The time and the marks of events do not matter for what is undone. -/
theorem Undone.retimed (h : Undone s s') (time : α) (events : List (StateEvent α ω)) :
    Undone { s with time, events } { s' with time, events } := by
  obtain ⟨journal, graph, kept, hkept, hs'⟩ := h.echoes
  refine ⟨⟨⟨h.poised.fitted, h.poised.graph, h.poised.kept⟩, h.poised.sized, h.poised.stocked⟩,
    journal, graph, kept, hkept, ?_⟩
  rw [hs']

omit [Scalar α] in
theorem Poised.announced (hs : s.Poised) (tick : Tick α) : (s.announced tick).Poised :=
  ⟨hs.toSteady.announced tick, hs.sized, hs.stocked⟩

/-- An iteration that cannot be computed is interrupted. -/
theorem Reachable.interrupted (hs : s.Reachable)
    (hunforced : s.forcedStep = none) (hready : ready s = .ok () s₀) (h : Breaks s failure s') :
    ∃ parts, Interrupted (s₀.despite s') s' parts := by
  have hrest := hs.aligned.ready_rest hready
  have hforced : s₀.forcedStep = none := by
    rw [hrest]
    exact hunforced
  have hpoised := hs.poised_of_ready hready
  cases h with
  | attempt h =>
      rcases attempt_error hready h with rfl | ⟨tick, hcompute⟩
      · exact ⟨[], ⟨s', .refl _ s', .refl s'⟩, .inl rfl⟩
      · obtain ⟨parts, hinterrupted⟩ := (hpoised.announced tick).interrupted hcompute
        exact ⟨parts, hinterrupted.despite rfl⟩
  | @approach tried s₁ first rest hattempt hinspect h =>
      obtain ⟨s₀', tick, s₂, hready', _, hcompute, rfl⟩ := attempt_eq_ok hattempt
      cases hready'.symm.trans hready
      obtain ⟨hs₁, _, _⟩ := inspectEvents_ok hinspect
      obtain ⟨hshown, _⟩ := inspectEvents_found hinspect
      generalize s₁.events = events at hs₁
      subst hs₁
      -- the iteration that is taken back leaves what it began with, at another time
      have hrewind : rewindStep s₂ = .ok () (rewindStep s₂).state := rfl
      have hundone := (hpoised.announced tick).undone hcompute hrewind
      obtain ⟨_, _, _, hiterated⟩ := (hpoised.announced tick).toSteady.computeStep hcompute
      have hsignals : ∀ c ∈ first :: rest, ∃ history,
          (s₀.announced tick).diagram.signalHistory c.watch.signal = .ok history := by
        intro c hc
        obtain ⟨history, _, _, hhistory, _⟩ := (hshown c hc).samples
        exact hiterated.shape.symm.sameFrame.signalHistory hhistory
      have hends : (approach first (first :: rest) { s₂ with time := tick.time, events }).Ends _ _ :=
        approach_ends (hundone.retimed tick.time events) hforced hsignals
      rw [h] at hends
      obtain ⟨parts, hinterrupted⟩ := hends
      exact ⟨parts, hinterrupted.despite rfl⟩

/-- What an owner can do about a failure, and what is computed then, is the same as if there had
been none. -/
def Resumes (s s' : Simulation α ω) : Prop :=
  ∀ (fix : Run α ω Unit) (u : Simulation α ω), Deaf Renewing fix → fix s = .ok () u → u.Aligned →
    (∀ event ∈ u.events, event.callback.Deaf) → ∃ u', fix s' = .ok () u' ∧
      EStateM.Agree (Echoes Never) (Echoes Renewing) (advance u) (advance u')

theorem Echoes.resumes (h : Echoes Renewing s s') : Resumes s s' := by
  intro fix u hfix hok hu hdeaf
  obtain ⟨u', hok', hu'⟩ := (hfix s s' h).exists_ok hok
  exact ⟨u', hok', hu'.advance hu hdeaf⟩

/-- The state in which a failed step leaves the run. The ports that were computed before the
failure are a sample ahead, and the run is intact only if there are none. -/
structure Aftermath (s s' : Simulation α ω) (records : List (PortId × Sample α)) : Prop where
  iteration : s'.iteration = s.iteration
  ahead : ∀ p x, (p, x) ∈ records → ∃ history : History α,
    s.diagram.history? p = some history ∧ s'.diagram.history? p = some (history.push x)
  same : ∀ p, p ∉ records.map Prod.fst → s'.diagram.history? p = s.diagram.history? p
  intact : s'.diagram = s.diagram ↔ records = []
  resumes : records = [] → Resumes (s.despite s') s'

theorem Interrupted.aftermath (h : Interrupted (s.despite s') s' parts) :
    Aftermath s s' parts.flatten where
  iteration := h.iteration
  ahead _ _ hp := h.ahead hp
  same _ hp := h.same hp
  intact := h.diagram_eq_iff
  resumes hnone := (h.echoes hnone).resumes

/-- A step of which the iteration cannot be computed leaves the samples of the groups before the
failure and changes nothing else of the run. So it leaves the run as it was, to go on when the
cause is removed, exactly if those groups compute nothing. -/
theorem Reachable.aftermath_of_breaks (hs : s.Reachable) (hunforced : s.forcedStep = none)
    (hready : ready s = .ok () s₀) (h : Breaks s failure s') :
    Simulation.step s = .error failure s' ∧
      ∃ parts, Interrupted (s₀.despite s') s' parts ∧ Aftermath s₀ s' parts.flatten := by
  obtain ⟨parts, hinterrupted⟩ := hs.interrupted hunforced hready h
  exact ⟨step_eq_error.mpr (advance_eq_error.mpr (.inl h)), parts, hinterrupted,
    hinterrupted.aftermath⟩

omit [Scalar α] in
/-- Giving an input its value is one way to remove a cause. -/
theorem Deaf.setInput (name : String) (value : α) :
    Deaf Renewing (setInput name value : Run α ω Unit) := by
  have hset : Deaf Renewing (modify fun s : Simulation α ω =>
      { s with inputs := (name, value) :: s.inputs.filter fun entry => entry.1 ≠ name }) :=
    (Echoes.unseen _).update ⟨fun _ _ => rfl, fun _ => rfl⟩
  exact .bind (Echoes.unseen _).hidden.model fun _ => .bind (.lift _) fun _ =>
    .ite (.bind (.throw _) fun _ => hset) hset

/-- A model with a clock and then some blocks and links. -/
def clockedModel (blocks : List (String × Operator ℚ))
    (links : List (String × String × Option String)) : Edit ℚ Unit := do
  Edit.addAll ⟨0⟩ (("k", .clock 0 1) :: blocks)
  Edit.connectAll ⟨0⟩ links

/-- The start of a run of such a model. -/
def startOf (blocks : List (String × Operator ℚ)) (links : List (String × String × Option String)) :
    EStateM.Result (Failure ℚ) (Simulation ℚ Unit) Unit :=
  begin (make (clockedModel blocks links { diagram := .empty "m" [] [] }).state .standard ())

theorem startOf_reachable {blocks : List (String × Operator ℚ)}
    {links : List (String × String × Option String)} (h : (startOf blocks links).answer? = some ()) :
    (startOf blocks links).state.Reachable := by
  have hkept := (Block.fitted_lasting (α := ℚ)).keptByBuilding
  have hbuilt : Edit.Keeps Diagram.Fitted (clockedModel blocks links) :=
    .bind (hkept.addAll _ _) fun _ => hkept.connectAll _ _
  have hlawful : (make (clockedModel blocks links { diagram := .empty "m" [] [] }).state
      .standard ()).Lawful :=
    ⟨hbuilt _ (Diagram.Built.empty "m" [] []).fitted, fun _ hmem => by cases hmem⟩
  exact .begun hlawful (EStateM.Result.eq_ok h)

/-- A block that copies its own value is a loop without a unique solution. It is the first to be
computed, so the step that fails leaves the run as it was. -/
theorem aftermath_of_copyLoop : ∃ (s s' : Simulation ℚ Unit) (failure : Failure ℚ),
    s.Reachable ∧ s.forcedStep = none ∧ ready s = .ok () s ∧ Breaks s failure s' ∧
      Simulation.step s = .error failure s' ∧ s'.diagram = s.diagram ∧ Resumes (s.despite s') s' := by
  let start := startOf [("a", .adder 1)] [("a", "a", none)]
  have hreachable : start.state.Reachable := startOf_reachable (by decide +kernel)
  have hready : ready start.state = .ok () start.state := ready_of_started (by decide +kernel)
  obtain ⟨hfails, hunforced, hempty⟩ : (attempt start.state).answer? = none ∧
      start.state.forcedStep = none ∧
        ∀ p ∈ start.state.diagram.computedPorts,
          (attempt start.state).state.diagram.history? p = some #[] := by
    decide +kernel
  cases hattempt : attempt start.state with
  | ok _ s' =>
      rw [hattempt] at hfails
      cases hfails
  | error failure s' =>
      rw [hattempt] at hempty
      obtain ⟨hstep, parts, hinterrupted, haftermath⟩ :=
        hreachable.aftermath_of_breaks hunforced hready (.attempt hattempt)
      have hnone : parts.flatten = [] := by
        refine List.eq_nil_iff_forall_not_mem.mpr fun ⟨p, x⟩ hp => ?_
        obtain ⟨history, _, hpushed⟩ := haftermath.ahead p x hp
        have hcomputed := hinterrupted.nodup_map_fst.2 p (List.mem_map_of_mem hp)
        exact Array.push_ne_empty (Option.some.inj (hpushed.symm.trans (hempty p hcomputed)))
      exact ⟨start.state, s', failure, hreachable, hunforced, hready, .attempt hattempt, hstep,
        haftermath.intact.mpr hnone, haftermath.resumes hnone⟩

/-- Where a constant of zero is inverted, the step that fails leaves a sample of the constant. The
inverter reads it in the next step, which fails although the constant is not zero any more. -/
theorem sample_left_by_inversion : ∃ (s s' s'' : Simulation ℚ Unit) (failure : Failure ℚ)
    (p : PortId), s.Reachable ∧ Breaks s failure s' ∧ Simulation.step s = .error failure s' ∧
      s.diagram.history? p = some #[] ∧ s'.diagram.history? p = some #[⟨0, 0⟩] ∧
        edit (.setConstant "c" 2) s' = .ok () s'' ∧ (Simulation.step s'').answer? = none := by
  let start := startOf [("c", .constant 0), ("i", .inverter (1 / 1000))] [("c", "i", none)]
  let constant : PortId := .output ⟨2⟩ 0
  have hreachable : start.state.Reachable := startOf_reachable (by decide +kernel)
  obtain ⟨hfails, hbefore, hafter, hset, hagain⟩ : (attempt start.state).answer? = none ∧
      start.state.diagram.history? constant = some #[] ∧
        (attempt start.state).state.diagram.history? constant = some #[⟨0, 0⟩] ∧
          (edit (.setConstant "c" 2) (attempt start.state).state).answer? = some () ∧
            (Simulation.step
              (edit (.setConstant "c" 2) (attempt start.state).state).state).answer? = none := by
    decide +kernel
  cases hattempt : attempt start.state with
  | ok _ s' =>
      rw [hattempt] at hfails
      cases hfails
  | error failure s' =>
      rw [hattempt] at hafter hset hagain
      exact ⟨start.state, s', _, failure, constant, hreachable, .attempt hattempt,
        step_eq_error.mpr (advance_eq_error.mpr (.inl (.attempt hattempt))), hbefore, hafter,
        EStateM.Result.eq_ok hset, hagain⟩

end Simulation

end CausalBlocks
