import CausalBlocks.Proofs.Loop.Equations
import CausalBlocks.Proofs.Simulation.Evaluation
import CausalBlocks.Proofs.Simulation.Tracking

/-!
# How loops are settled

A loop is solved as a whole, whether its blocks are due or not. A block that is due then
gets the output that was found for it, any other repeats its last one. So a block that is
due satisfies its equation on the samples if the blocks of the loop that drive it carry
what was found for them, and in general exactly if its operator makes the same of what
they carry.
-/

namespace CausalBlocks

variable {α ω : Type}

namespace Diagram

variable {d d' : Diagram α} {group : List BlockId}

theorem loopReader_refines (h : d.Extends d') (outputs : List (BlockId × α)) (now : Nat)
    (id : BlockId) (port iteration : Nat) :
    (d.loopReader outputs now id port iteration).Refines
      (d'.loopReader outputs now id port iteration) := by
  rw [loopReader, loopReader, h.shape.driverOf]
  refine .bind (.refl _) fun driver => ?_
  split
  next => exact .refl _
  next => exact .bind (fun _ hx => h.inputSample hx) fun _ => .refl _

/-- Outputs that were found from some samples are found from more of them. -/
theorem SolvesLoop.mono [Scalar α] {tick : Tick α} {values : List α} (h : d.Extends d')
    (hsolves : d.SolvesLoop group tick values) : d'.SolvesLoop group tick values := by
  refine ⟨hsolves.1, fun id value hmem => ?_⟩
  obtain ⟨b, hb, hcompute⟩ := hsolves.2 id value hmem
  obtain ⟨b', hb', hoperator, _⟩ := h.shape.symm.block? hb
  refine ⟨b', hb', ?_⟩
  rw [hoperator, h.shape.pathOf]
  exact Operator.compute_refines (loopReader_refines h _ _ id) _ hcompute

/-- In exact arithmetic the outputs that are found for a loop are what its blocks compute from
each other. -/
theorem solvesLoop_of_solveLoop {d : Diagram ℚ} (hported : d.Ported) (hnodup : group.Nodup)
    {tick : Tick ℚ} {values : List ℚ} (h : d.solveLoop group tick.iteration = .ok values) :
    d.SolvesLoop group tick values := by
  obtain ⟨_, hcheck, h⟩ := Except.bind_eq_ok.mp h
  obtain ⟨system, hsystem, h⟩ := Except.bind_eq_ok.mp h
  split at h
  next solved hsolve =>
    cases h
    rw [← ofFn_get]
    refine (loopSystem_ok hported hnodup hcheck hsystem _).mp ?_
    exact (LinearSystem.eliminate_ok (LinearSystem.solve_ok hsolve) _).mpr rfl
  next => cases h

end Diagram

namespace Simulation

variable [Scalar α] {s s' : Simulation α ω} {tick : Tick α} {id : BlockId} {ids : List BlockId}

/-! ### Members -/

/-- The sample of a block in a loop: the output found for it, or if the block is not due its last
one again. -/
structure Settled (d : Diagram α) (tick : Tick α) (id : BlockId) (b : Block α) (value : α)
    (x : Sample α) : Prop where
  due : mustCompute b.rate tick.iteration tick.time = true → x = ⟨tick.time, value⟩
  held : mustCompute b.rate tick.iteration tick.time = false →
    Held d tick.time (.output id 0, x)

/-- Only the rate of the block and the samples of its output matter. -/
theorem Settled.rebase {d d₁ : Diagram α} {b b₁ : Block α} {value : α} {x : Sample α}
    (h : Settled d₁ tick id b₁ value x) (hrate : b.rate = b₁.rate)
    (hfresh : d₁.history? (.output id 0) = d.history? (.output id 0)) :
    Settled d tick id b value x := by
  obtain ⟨hdue, hheld⟩ := h
  rw [← hrate] at hdue hheld
  exact ⟨hdue, fun hno => (hheld hno).congr hfresh⟩

theorem settleMember_settled {value : α}
    (hports : s.diagram.portIds id .output = [.output id 0])
    (h : settleMember tick id value s = .ok () s') : ∃ b x, s.diagram.block? id = some b ∧
      Recorded s s' [(.output id 0, x)] ∧ Settled s.diagram tick id b value x := by
  rw [settleMember, EStateM.bind_eq_ok] at h
  obtain ⟨due, s, hdue, h⟩ := h
  obtain ⟨b, hb, rfl, rfl⟩ := isDue_eq_ok hdue
  rcases EStateM.ite_eq_ok.mp h with ⟨hyes, hrecord⟩ | ⟨hno, hhold⟩
  · exact ⟨b, _, hb, record_ok hrecord, fun _ => rfl, fun hno => absurd hyes (by simp [hno])⟩
  · obtain ⟨records, hrecorded, hrecords, hheld⟩ := holdOutputs_ok hhold
    rw [hports] at hrecords
    obtain ⟨⟨p, x⟩, rfl, hp⟩ := List.map_eq_singleton_iff.mp hrecords
    cases hp
    exact ⟨b, x, hb, hrecorded, fun hyes => absurd hyes hno,
      fun _ => hheld _ (List.mem_singleton_self _)⟩

/-- The records of a member of a loop, with what was found for it. -/
structure SettledBy (d : Diagram α) (tick : Tick α) (found : BlockId × α)
    (records : List (PortId × Sample α)) : Prop where
  sample : ∃ b x, d.block? found.1 = some b ∧ records = [(.output found.1 0, x)] ∧
    Settled d tick found.1 b found.2 x

/-- A loop that is computed gives each of its blocks one sample. -/
theorem computeLoop_settled (hfitted : s.diagram.Fitted)
    (hnodup : (s.diagram.groupOutputs (.cycle ids)).Nodup)
    (h : computeLoop ids tick s = .ok () s') : ∃ values parts,
      s.diagram.solveLoop ids tick.iteration = .ok values ∧
        Recorded s s' (List.flatten parts) ∧
          (List.flatten parts).map Prod.fst = s.diagram.groupOutputs (.cycle ids) ∧
            List.Forall₂ (SettledBy s.diagram tick) (ids.zip values) parts := by
  simp only [computeLoop, EStateM.bind_eq_ok, model_eq_ok, EStateM.lift_eq_ok] at h
  obtain ⟨_, s, ⟨rfl, rfl⟩, values, s, ⟨hvalues, rfl⟩, h⟩ := h
  obtain ⟨hlength, hports⟩ := solveLoop_ok hfitted hvalues
  have hids : (ids.zip values).map Prod.fst = ids := List.map_fst_zip (Nat.le_of_eq hlength.symm)
  let ports (found : BlockId × α) : List PortId := s.diagram.portIds found.1 .output
  have houtputs : (ids.zip values).flatMap ports = s.diagram.groupOutputs (.cycle ids) := by
    calc (ids.zip values).flatMap ports
      _ = ((ids.zip values).map Prod.fst).flatMap fun id => s.diagram.portIds id .output := by
          rw [List.flatMap_map]
      _ = s.diagram.groupOutputs (.cycle ids) := by rw [hids]; rfl
  have hturn : ∀ found ∈ ids.zip values, ∀ (s₁ s₂ : Simulation α ω) earlier,
      Recorded s s₁ earlier →
      (∀ p ∈ ports found, s₁.diagram.history? p = s.diagram.history? p) →
      settleMember tick found.1 found.2 s₁ = .ok () s₂ → ∃ records, Recorded s₁ s₂ records ∧
        Fills ports (fun found _ => SettledBy s.diagram tick found) s₂.diagram found records := by
    rintro ⟨id, value⟩ hfound s₁ s₂ _ hbefore hfresh hsettle
    have hport : s.diagram.portIds id .output = [.output id 0] :=
      hports id (List.of_mem_zip hfound).1
    have hshape := hbefore.keeps.shape
    obtain ⟨b₁, x, hb₁, hrecorded, hsettled⟩ :=
      settleMember_settled ((hshape.portIds id .output).trans hport) hsettle
    obtain ⟨b, hb, _, hrate, _⟩ := hshape.block? hb₁
    have hmem : .output id 0 ∈ ports (id, value) := by
      rw [show ports (id, value) = [.output id 0] from hport]
      exact List.mem_singleton_self _
    exact ⟨_, hrecorded, hport.symm, ⟨b, x, hb, rfl, hsettled.rebase hrate (hfresh _ hmem)⟩⟩
  obtain ⟨parts, hrecorded, hparts⟩ :=
    forM_recorded hturn (fun _ _ _ _ h _ => h) (by rwa [houtputs]) h
  exact ⟨values, parts, hvalues, hrecorded, (map_fst_flatten hparts).trans houtputs,
    hparts.imp fun _ _ hfills => hfills.2⟩

/-! ### A whole iteration -/

omit [Scalar α] in
/-- Two lists of samples that have the same effect give a port the same sample. -/
theorem mem_of_recordAll_eq {d : Diagram α} {records more : List (PortId × Sample α)} {p : PortId}
    {x : Sample α} (hsame : d.recordAll records = d.recordAll more)
    (hnodup : (records.map Prod.fst).Nodup) (hnodup' : (more.map Prod.fst).Nodup)
    (hlive : ∃ history : History α, d.history? p = some history) (hx : (p, x) ∈ records)
    (hp : p ∈ more.map Prod.fst) : (p, x) ∈ more := by
  obtain ⟨⟨_, y⟩, hy, rfl⟩ := List.mem_map.mp hp
  obtain ⟨history, hhistory⟩ := hlive
  have hpush : history.push y = history.push x := by
    have hfirst := Diagram.history?_recordAll_of_mem (d := d) hnodup hx
    have hsecond := Diagram.history?_recordAll_of_mem (d := d) hnodup' hy
    rw [hsame, hsecond, hhistory] at hfirst
    exact Option.some.inj hfirst
  rwa [← Array.back_eq_of_push_eq hpush]

/-- What an iteration makes of a loop of its schedule. -/
theorem computeStep_loop_settled {groups : List Group} {parts : List (List (PortId × Sample α))}
    (hs : s.Steady) (hok : computeStep s = .ok () s') (h : Iterated s s' tick groups parts)
    (hloop : .cycle ids ∈ groups) : ∃ (d : Diagram α) (values : List α),
      d.Extends s'.diagram ∧ d.solveLoop ids tick.iteration = .ok values ∧
        ∀ id value, (id, value) ∈ ids.zip values → ∃ b x, s.diagram.block? id = some b ∧
          (.output id 0, x) ∈ parts.flatten ∧ Settled s.diagram tick id b value x := by
  simp only [computeStep, EStateM.bind_eq_ok, EStateM.get_eq_ok, EStateM.lift_eq_ok,
    EStateM.modify_eq_ok] at hok
  obtain ⟨_, s, ⟨rfl, rfl⟩, tick', s, ⟨htick, rfl⟩, groups', s₁, hschedule, _, s₂, hgroups, rfl⟩ :=
    hok
  cases htick.symm.trans h.next
  obtain ⟨hcovers, hkept, _, hs₁⟩ := currentSchedule_ok hs.graph hs.kept hschedule
  have hdiagram : s₁.diagram = s.diagram := by rw [hs₁]; rfl
  have hfitted : s₁.diagram.Fitted := hdiagram ▸ hs.fitted
  have hnodup : (groups'.flatMap s₁.diagram.groupOutputs).Nodup := by
    rw [hdiagram]
    exact hcovers.outputs.nodup_iff.mpr hcovers.nodup
  obtain rfl : groups' = groups := by
    obtain ⟨_, hrecorded, _⟩ := computeGroups_ok_of_nodup hfitted hnodup hgroups
    have hsame := h.kept
    rw [show ({ s₂ with iteration := s₂.iteration + 1 } : Simulation α ω).scheduler =
      s₁.scheduler by rw [hrecorded.rest], hkept] at hsame
    exact Option.some.inj hsame
  obtain ⟨before, after, s₃, s₄, rfl, hbefore, hsolve, hafter⟩ := EStateM.forM_split hloop hgroups
  have hparts := hnodup
  rw [List.flatMap_append, List.flatMap_cons, List.nodup_append', List.nodup_append'] at hparts
  obtain ⟨hfirst, ⟨hmine, hrest, _⟩, hdisjoint⟩ := hparts
  obtain ⟨parts₁, hrecorded₁, hparts₁⟩ := computeGroups_ok_of_nodup hfitted hfirst hbefore
  have hshape₁ := hrecorded₁.keeps.shape
  obtain ⟨values, parts₂, hvalues, hrecorded₂, hports₂, hsettled⟩ := computeLoop_settled
    (hshape₁.fitted hfitted) (by rwa [hshape₁.groupOutputs]) hsolve
  have hshape₂ := hshape₁.trans hrecorded₂.keeps.shape
  obtain ⟨parts₃, hrecorded₃, hparts₃⟩ := computeGroups_ok_of_nodup
    (hshape₂.fitted hfitted) (by rwa [hshape₂.groupOutputs]) hafter
  rw [hshape₁.groupOutputs] at hports₂
  have hports : (parts₁.flatten ++ parts₂.flatten ++ parts₃.flatten).map Prod.fst =
      (before ++ .cycle ids :: after).flatMap s₁.diagram.groupOutputs := by
    rw [List.map_append, List.map_append, map_fst_flatten hparts₁, hports₂,
      map_fst_flatten hparts₃, hshape₂.groupOutputs, List.flatMap_append, List.flatMap_cons,
      List.append_assoc]
  have hsame : s.diagram.recordAll (parts₁.flatten ++ parts₂.flatten ++ parts₃.flatten) =
      s.diagram.recordAll parts.flatten := by
    rw [← hdiagram, ← ((hrecorded₁.trans hrecorded₂).trans hrecorded₃).diagram, hdiagram]
    exact h.diagram
  refine ⟨s₃.diagram, values, (hrecorded₂.trans hrecorded₃).keeps, hvalues, fun id value hmem => ?_⟩
  obtain ⟨mine, hmine', b₁, x, hb₁, rfl, hmember⟩ := exists_part_of_mem hsettled hmem
  have hx : (PortId.output id 0, x) ∈ parts₂.flatten :=
    List.mem_flatten_of_mem hmine' (List.mem_singleton_self _)
  have hp : .output id 0 ∈ s₁.diagram.groupOutputs (.cycle ids) :=
    hports₂ ▸ List.mem_map_of_mem hx
  have hfresh : s₃.diagram.history? (.output id 0) = s₁.diagram.history? (.output id 0) := by
    refine hrecorded₁.history?_of_notMem fun hmem => ?_
    rw [map_fst_flatten hparts₁] at hmem
    exact hdisjoint hmem (List.mem_append_left _ hp)
  obtain ⟨b, hb, _, hrate, _⟩ := hshape₁.block? hb₁
  rw [hdiagram] at hb hfresh
  have hall : (PortId.output id 0, x) ∈ parts₁.flatten ++ parts₂.flatten ++ parts₃.flatten :=
    List.mem_append_left _ (List.mem_append_right _ hx)
  have hcomputed : .output id 0 ∈ s.diagram.computedPorts := by
    rw [← hcovers.outputs.mem_iff, ← hdiagram, ← hports]
    exact List.mem_map_of_mem hall
  refine ⟨b, x, hb, ?_, hmember.rebase hrate hfresh⟩
  exact mem_of_recordAll_eq hsame (hports ▸ hnodup) h.nodup_map_fst
    (Diagram.exists_history_of_computed hcomputed) hall (h.map_fst_perm.mem_iff.mpr hcomputed)

end Simulation

/-! ### What a turn leaves of a loop -/

namespace Diagram

variable [Scalar α] {d : Diagram α} {tick : Tick α} {ids : List BlockId} {values : List α}
  {id : BlockId} {b : Block α}

/-- The samples of a loop at a tick, and the outputs that were found for its blocks. A block that
is due carries what was found for it, any other repeats its sample of the iteration before. -/
structure LoopSettled (d : Diagram α) (tick : Tick α) (ids : List BlockId) (values : List α) :
    Prop where
  solves : d.SolvesLoop ids tick values
  ports : ∀ id ∈ ids, d.portIds id .output = [.output id 0]
  due : ∀ id value b, (id, value) ∈ ids.zip values → d.block? id = some b →
    mustCompute b.rate tick.iteration tick.time = true →
      d.sample? (.output id 0) tick.iteration = some ⟨tick.time, value⟩
  held : ∀ id value b, (id, value) ∈ ids.zip values → d.block? id = some b →
    mustCompute b.rate tick.iteration tick.time = false → ∃ before last,
      tick.iteration = before + 1 ∧ d.sample? (.output id 0) before = some last ∧
        d.sample? (.output id 0) tick.iteration = some ⟨tick.time, last.value⟩

/-- The blocks of a loop that drive a block carry what was found for them. -/
def InStep (d : Diagram α) (tick : Tick α) (ids : List BlockId) (values : List α) (id : BlockId) :
    Prop :=
  ∀ port driver value, d.driverOf (.input id port) = .ok driver → driver.side = .output →
    (driver.block, value) ∈ ids.zip values →
      d.sample? driver tick.iteration = some ⟨tick.time, value⟩

namespace LoopSettled

variable (h : d.LoopSettled tick ids values) (hid : id ∈ ids)
include h hid

theorem exists_found : ∃ value, (id, value) ∈ ids.zip values := by
  obtain ⟨i, hi, rfl⟩ := List.getElem_of_mem hid
  have hlength : i < values.length := h.solves.1 ▸ hi
  exact ⟨values[i], List.mem_iff_getElem.mpr ⟨i, by simp [hi, hlength], by simp⟩⟩

variable (hb : d.block? id = some b) (hdue : mustCompute b.rate tick.iteration tick.time = true)
include hb hdue

/-- A block that is due satisfies its equation on the samples exactly if its operator makes the
same of them as of what was found. -/
theorem satisfies_iff : d.Satisfies tick id b ↔
    b.operator.compute (d.pathOf id) tick (Simulation.readerOf d id) =
      b.operator.compute (d.pathOf id) tick
        (d.loopReader (ids.zip values) tick.iteration id) := by
  obtain ⟨value, hmem⟩ := h.exists_found hid
  obtain ⟨b', hb', hfound⟩ := h.solves.2 id value hmem
  cases hb.symm.trans hb'
  have hsample := h.due id value b hmem hb hdue
  have houtputs : b.outputs.length = 1 := by
    have hports := h.ports id hid
    rw [portIds_eq hb] at hports
    simpa using congrArg List.length hports
  rw [hfound]
  constructor
  · intro hsatisfies
    obtain ⟨values, hvalues, hlength, hsamples⟩ := hsatisfies.due hdue
    rw [houtputs] at hlength
    obtain ⟨other, rfl⟩ := List.length_eq_one_iff.mp hlength
    cases hsample.symm.trans (hsamples 0 other rfl)
    exact hvalues
  · refine fun hvalues => ⟨fun _ => ⟨[value], hvalues, houtputs.symm, fun i x hx => ?_⟩,
      fun hno => absurd hdue (by simp [hno])⟩
    rw [List.getElem?_singleton] at hx
    split at hx
    next hi =>
      cases hx
      rw [hi, hsample]
    next => cases hx

/-- A block that is due satisfies its equation if the blocks of the loop that drive it carry what
was found for them. -/
theorem satisfies (hstep : d.InStep tick ids values id) : d.Satisfies tick id b := by
  have hreads : ∀ port iteration, (d.loopReader (ids.zip values) tick.iteration id port
      iteration).Refines (Simulation.readerOf d id port iteration) := by
    intro port iteration value hread
    obtain ⟨driver, hdriver, hread⟩ := Except.bind_eq_ok.mp hread
    split at hread
    next found hfound =>
      obtain rfl : found = value := Except.ok.inj hread
      split at hfound
      next hnow =>
        -- the output of a block of the loop, read at the tick
        obtain ⟨before, after, hzip, _⟩ := List.lookup_eq_some_iff.mp hfound
        have hmem : (driver.block, found) ∈ ids.zip values := by simp [hzip]
        rw [readerOf_eq_ok, hnow.2]
        exact ⟨driver, _, hdriver, hstep port driver found hdriver hnow.1 hmem, rfl⟩
      next => cases hfound
    next => exact hread
  obtain ⟨value, hmem⟩ := h.exists_found hid
  obtain ⟨b', hb', hfound⟩ := h.solves.2 id value hmem
  cases hb.symm.trans hb'
  rw [h.satisfies_iff hid hb hdue, hfound]
  exact Operator.compute_refines hreads _ hfound

end LoopSettled

end Diagram

namespace Simulation

variable {s s' s₀ : Simulation ℚ ω}

/-- Making ready keeps what building keeps. -/
theorem ready_keeps [Scalar α] {P : Diagram α → Prop} (hP : Edit.KeptByBuilding P)
    {s s' : Simulation α ω} (hs : P s.diagram) (h : ready s = .ok () s') : P s'.diagram := by
  obtain ⟨_, rfl⟩ | ⟨_, hprepare⟩ := ready_cases h
  · exact hs
  · obtain ⟨_, s₁, hensure, _, hs'⟩ := prepare_rest hprepare
    rw [hs']
    exact (ensureClock_keeps hP hs hensure).1

/-- A loop whose blocks have one output each has no block twice. -/
theorem nodup_of_groupOutputs {α : Type} {d : Diagram α} {ids : List BlockId}
    (hports : ∀ id ∈ ids, d.portIds id .output = [.output id 0])
    (hnodup : (d.groupOutputs (.cycle ids)).Nodup) : ids.Nodup := by
  have houtputs : d.groupOutputs (.cycle ids) = ids.map fun id => .output id 0 := by
    rw [List.map_eq_flatMap]
    exact List.flatMap_congr hports
  rw [houtputs] at hnodup
  exact hnodup.of_map

/-- In exact arithmetic an iteration settles the loops of its schedule. -/
theorem Iterated.loopSettled {tick : Tick ℚ} {groups : List Group}
    {parts : List (List (PortId × Sample ℚ))} {ids : List BlockId}
    (h : Iterated s s' tick groups parts) (hsteady : s.Steady) (hsized : s.Sized)
    (hported : s.diagram.Ported) (hok : computeStep s = .ok () s') (hloop : .cycle ids ∈ groups) :
    ∃ values, s'.diagram.LoopSettled tick ids values := by
  obtain ⟨d, values, hextends, hvalues, hmembers⟩ :=
    computeStep_loop_settled hsteady hok h hloop
  have hshape : d.SameShape s.diagram := hextends.shape.trans h.shape.symm
  obtain ⟨_, hports⟩ := solveLoop_ok (hshape.symm.fitted hsteady.fitted) hvalues
  have hnodup : ids.Nodup := by
    have hall : (groups.flatMap s.diagram.groupOutputs).Nodup :=
      h.covers.outputs.nodup_iff.mpr h.covers.nodup
    refine nodup_of_groupOutputs hports ?_
    rw [hshape.symm.groupOutputs]
    exact (List.nodup_flatMap.mp hall).1 _ hloop
  have hsolves := Diagram.solvesLoop_of_solveLoop (hshape.symm.ported hported) hnodup hvalues
  refine ⟨values, hsolves.mono hextends, fun id hid => ?_, fun id value b hmem hb hdue => ?_,
    fun id value b hmem hb hlater => ?_⟩
  · rw [hextends.shape.portIds, hports id hid]
  · obtain ⟨b₀, x, hb₀, hx, hsettled⟩ := hmembers id value hmem
    obtain ⟨_, hb₀', _, hrate, _⟩ := h.shape.block? hb
    cases hb₀.symm.trans hb₀'
    rw [h.sample?_new hsized hx, hsettled.due (hrate ▸ hdue)]
  · obtain ⟨b₀, x, hb₀, hx, hsettled⟩ := hmembers id value hmem
    obtain ⟨_, hb₀', _, hrate, _⟩ := h.shape.block? hb
    cases hb₀.symm.trans hb₀'
    exact h.sample?_held hsized hx (hsettled.held (hrate ▸ hlater))

/-- In exact arithmetic the iteration of a turn settles the loops of its schedule. -/
theorem Reachable.settles (hs : s.Reachable) (h : attempt s = .ok () s') : ∃ s₀ tick g parts,
    ready s = .ok () s₀ ∧ Prepared s s₀ ∧ s₀.diagram.dependencies s₀.iteration = .ok g ∧
      Iterated s₀ s' tick g.schedule parts ∧ s'.time = tick.time ∧
        (s₀.diagram.Ported → ∀ ids, .cycle ids ∈ g.schedule →
          ∃ values, s'.diagram.LoopSettled tick ids values) := by
  obtain ⟨s₀, tick, g, parts, hready, hprepared, hg, hiterated, htime, _⟩ :=
    hs.current.attempt hs.aligned h
  refine ⟨s₀, tick, g, parts, hready, hprepared, hg, hiterated, htime, fun hported ids hloop => ?_⟩
  obtain ⟨s₀', tick', s₁, hready', htick', hcompute, rfl⟩ := attempt_eq_ok h
  cases hready.symm.trans hready'
  cases hiterated.next.symm.trans htick'
  -- the same iteration, seen from where the tracers have been told
  have hsteady := hprepared.aligned.toSteady.announced tick
  obtain ⟨tick', groups, parts', hcomputed⟩ := hsteady.computeStep hcompute
  cases htick'.symm.trans hcomputed.next
  cases hcomputed.kept.symm.trans hiterated.kept
  exact hcomputed.loopSettled hsteady hprepared.aligned.sized hported hcompute hloop

/-- In exact arithmetic, a turn in which no event fired settles every loop of the schedule: there
are outputs that its blocks compute from each other and from the samples, a block that is due
carries its own, and any other repeats its sample. A block that is due satisfies its equation on the
samples exactly if its operator makes the same of them as of these outputs, so it does if the
blocks of the loop that drive it carry theirs. -/
theorem Reachable.loops_settled (hs : s.Reachable) (hported : s.diagram.Ported)
    (h : advance s = .ok none s') : ∃ s₀ tick g, ready s = .ok () s₀ ∧ s₀.nextTick = .ok tick ∧
      s'.iteration = tick.iteration + 1 ∧ s'.diagram.dependencies tick.iteration = .ok g ∧
        ∀ ids, .cycle ids ∈ g.schedule → ∃ values, s'.diagram.LoopSettled tick ids values ∧
          ∀ id ∈ ids, ∀ b, s'.diagram.block? id = some b →
            mustCompute b.rate tick.iteration tick.time = true →
              (s'.diagram.InStep tick ids values id → s'.diagram.Satisfies tick id b) ∧
                (s'.diagram.Satisfies tick id b ↔
                  b.operator.compute (s'.diagram.pathOf id) tick (readerOf s'.diagram id) =
                    b.operator.compute (s'.diagram.pathOf id) tick
                      (s'.diagram.loopReader (ids.zip values) tick.iteration id)) := by
  obtain ⟨tried, events, hattempt, _, ⟨_, hs'⟩ | ⟨_, _, hfired, _⟩⟩ := advance_ok hs.aligned h
  swap
  · cases hfired
  have hdiagram : s'.diagram = tried.diagram := by rw [hs']; rfl
  obtain ⟨s₀, tick, g, parts, hready, _, hg, hiterated, _, hloops⟩ := hs.settles hattempt
  have hiteration := iteration_of_nextTick hiterated.next
  have hported₀ : s₀.diagram.Ported :=
    ready_keeps Block.ported_formal.lasting.keptByBuilding hported hready
  refine ⟨s₀, tick, g, hready, hiterated.next, ?_, ?_, fun ids hloop => ?_⟩
  · rw [hs', hiteration]
    exact congrArg Simulation.iteration hiterated.rest
  · rw [hdiagram, hiterated.shape.dependencies, hiteration, hg]
  obtain ⟨values, hsettled⟩ := hloops hported₀ ids hloop
  rw [hdiagram]
  exact ⟨values, hsettled, fun id hid b hb hdue =>
    ⟨hsettled.satisfies hid hb hdue, hsettled.satisfies_iff hid hb hdue⟩⟩

/-- A model in which an adder adds a source and its own negation, which is computed at every other
iteration. -/
def halved (source : Operator ℚ) : Edit ℚ Unit := do
  Edit.addAll ⟨0⟩ [("t", source), ("a", .adder 2), ("n", .negator)]
  Edit.connectAll ⟨0⟩ [("n", "a", none), ("t", "a", none), ("a", "n", none)]
  Edit.setRate ⟨3⟩ (some 2)

theorem halved_fitted (source : Operator ℚ) : Edit.Keeps Diagram.Fitted (halved source) := by
  have hkept := (Block.fitted_lasting (α := ℚ)).keptByBuilding
  exact .bind (hkept.addAll _ _) fun _ => .bind (hkept.connectAll _ _) fun _ =>
    Edit.fitted_keptByTuning.setRate _ _

/-- The start of a run of that model. -/
def halvedStart (source : Operator ℚ) : EStateM.Result (Failure ℚ) (Simulation ℚ Unit) Unit :=
  begin (make (halved source { diagram := .empty "m" [] [] }).state
    { Settings.standard with step := 1 } ())

/-- Its first turn, in which both blocks of the loop are due. -/
def halvedFirst (source : Operator ℚ) :
    EStateM.Result (Failure ℚ) (Simulation ℚ Unit) (Option Nat) :=
  advance (halvedStart source).state

theorem halvedFirst_reachable {source : Operator ℚ} (hstart : (halvedStart source).answer? = some ())
    (hfirst : (halvedFirst source).answer? = some none) : (halvedFirst source).state.Reachable := by
  have hlawful : ∀ (editor : Editor ℚ) settings, editor.diagram.Fitted →
      (make editor settings ()).Lawful := fun _ _ hfitted => ⟨hfitted, fun _ hmem => by cases hmem⟩
  have hfitted :=
    halved_fitted source { diagram := .empty "m" [] [] } (Diagram.Built.empty "m" [] []).fitted
  exact .advanced (.begun (hlawful _ _ hfitted) (EStateM.Result.eq_ok hstart))
    (EStateM.Result.eq_ok hfirst)

/-- With a constant source the negation repeats what is found for it again. -/
theorem loops_settled_halved : ∃ s s' : Simulation ℚ Unit, s.Reachable ∧ s.diagram.Ported ∧
    advance s = .ok none s' ∧ ∃ s₀ tick g, ready s = .ok () s₀ ∧ s₀.nextTick = .ok tick ∧
      s'.iteration = tick.iteration + 1 ∧ s'.diagram.dependencies tick.iteration = .ok g ∧
        ∀ ids, .cycle ids ∈ g.schedule → ∃ values, s'.diagram.LoopSettled tick ids values := by
  let s := (halvedFirst (.constant 1)).state
  have hreachable : s.Reachable := halvedFirst_reachable (by decide +kernel) (by decide +kernel)
  have hported : s.diagram.Ported := .of_mem (by decide +kernel)
  have hsecond : advance s = .ok none (advance s).state :=
    EStateM.Result.eq_ok (by decide +kernel)
  obtain ⟨s₀, tick, g, hready, hnext, hiteration, hg, hsettled⟩ :=
    hreachable.loops_settled hported hsecond
  exact ⟨s, _, hreachable, hported, hsecond, s₀, tick, g, hready, hnext, hiteration, hg,
    fun ids hloop => (hsettled ids hloop).imp fun _ h => h.1⟩

/-- With time as the source the second turn finds 1/2 for the adder and -1/2 for the negation. The
adder carries 1/2, but the negation repeats 0, and 0 and the time 1 do not add up to that. -/
theorem not_satisfied_halved : ∃ (s s' : Simulation ℚ Unit) (tick : Tick ℚ) (g : DependencyGraph)
    (ids : List BlockId) (id : BlockId) (b : Block ℚ), s.Reachable ∧ s.diagram.Ported ∧
      advance s = .ok none s' ∧ ready s = .ok () s ∧ s.nextTick = .ok tick ∧
        s'.diagram.dependencies tick.iteration = .ok g ∧ .cycle ids ∈ g.schedule ∧ id ∈ ids ∧
          s'.diagram.block? id = some b ∧ mustCompute b.rate tick.iteration tick.time = true ∧
            ¬s'.diagram.Satisfies tick id b := by
  let s := (halvedFirst .time).state
  let s' := (advance s).state
  have hreachable : s.Reachable := halvedFirst_reachable (by decide +kernel) (by decide +kernel)
  have hported : s.diagram.Ported := .of_mem (by decide +kernel)
  have hsecond : advance s = .ok none s' := EStateM.Result.eq_ok (by decide +kernel)
  have hready : ready s = .ok () s := ready_of_started (by decide +kernel)
  obtain ⟨⟨_, _, _, _⟩, hnext, rfl, rfl, rfl, rfl⟩ : ∃ tick, s.nextTick = .ok tick ∧
      tick.iteration = 1 ∧ tick.time = 1 ∧ tick.step = 1 ∧ tick.start = 0 :=
    Except.exists_ok_of_toOption (by decide +kernel)
  obtain ⟨g, hg, hloop⟩ : ∃ g, s'.diagram.dependencies 1 = .ok g ∧
      .cycle [⟨2⟩, ⟨3⟩] ∈ g.schedule := Except.exists_ok_of_toOption (by decide +kernel)
  obtain ⟨b, hb, hdue, hreads⟩ : ∃ b, s'.diagram.block? ⟨2⟩ = some b ∧
      mustCompute b.rate 1 1 = true ∧
        (b.operator.compute (s'.diagram.pathOf ⟨2⟩) ⟨1, 1, 1, 0⟩
          (readerOf s'.diagram ⟨2⟩)).toOption = some [1] := by
    decide +kernel
  have hsample : s'.diagram.sample? (.output ⟨2⟩ 0) 1 = some ⟨1, 1 / 2⟩ := by decide +kernel
  refine ⟨s, s', _, g, _, ⟨2⟩, b, hreachable, hported, hsecond, hready, hnext, hg, hloop,
    List.mem_cons_self, hb, hdue, fun hsatisfies => ?_⟩
  obtain ⟨values, hvalues, _, hsamples⟩ := hsatisfies.due hdue
  cases (Except.eq_ok_of_toOption hreads).symm.trans hvalues
  have hsame := Option.some.inj (hsample.symm.trans (hsamples 0 1 rfl))
  exact absurd (congrArg Sample.value hsame) (by norm_num)

end Simulation

end CausalBlocks
