import CausalBlocks.Proofs.Diagram.Alike
import CausalBlocks.Proofs.Simulation.Equations

/-!
# Evaluation in any order

Without cycles the equations of the blocks settle what an iteration records. Any order in
which each node comes after what it needs computes just that, and meets no failure on the
way.
-/

namespace CausalBlocks

variable {α ω : Type}

namespace Diagram

variable {d d' : Diagram α} {id : BlockId} {p : PortId} {port iteration : Nat} {value : α}

/-- What is read is the value of the driver's sample. -/
theorem readerOf_eq_ok : Simulation.readerOf d id port iteration = .ok value ↔
    ∃ driver x, d.driverOf (.input id port) = .ok driver ∧ d.sample? driver iteration = some x ∧
      x.value = value := by
  have hmap : Simulation.readerOf d id port iteration = .ok value ↔
      ∃ x, d.inputSample id port iteration = .ok x ∧ x.value = value := by
    rw [Simulation.readerOf]
    cases d.inputSample id port iteration <;> simp [Except.map]
  rw [hmap]
  simp only [inputSample_eq_ok, sample?, Option.bind_eq_some_iff]
  constructor
  · rintro ⟨x, ⟨driver, history, hdriver, hhistory, hx⟩, hvalue⟩
    exact ⟨driver, x, hdriver, ⟨history, hhistory, hx⟩, hvalue⟩
  · rintro ⟨driver, x, hdriver, ⟨history, hhistory, hx⟩, hvalue⟩
    exact ⟨x, ⟨driver, history, hdriver, hhistory, hx⟩, hvalue⟩

/-- A list of the nodes in which a block comes after the drivers of its needed inputs. -/
structure Ordered (d : Diagram α) (iteration : Nat) (order : List Node) : Prop where
  perm : order.Perm d.nodes
  after : ∀ earlier id later, order = earlier ++ .block id :: later →
    ∀ b, d.block? id = some b → ∀ index ∈ b.operator.neededInputs iteration,
      ∀ driver, d.driverOf (.input id index) = .ok driver → d.nodeOf driver ∈ earlier

/-- Without cycles the schedule puts the nodes in order. -/
theorem exists_ordered {g : DependencyGraph} (hg : d.dependencies iteration = .ok g)
    (hacyclic : g.Acyclic) :
    ∃ order, d.Ordered iteration order ∧ g.schedule = order.map Node.group := by
  have hdescribes := DependencyGraph.describesNodes_of_dependencies hg
  obtain ⟨order, hperm, hschedule, hpairwise⟩ := hacyclic.exists_order hdescribes.sound
  rw [hdescribes.members] at hperm
  refine ⟨order, ⟨hperm, ?_⟩, hschedule⟩
  rintro earlier id later rfl b hb index hneeded driver hdriver
  have hid : id ∈ d.primitives := by
    have hmem := hperm.mem_iff.mp (List.mem_append_right earlier List.mem_cons_self)
    simpa [nodes] using hmem
  have hinfluences := (mem_influencersOf_iff hg).mpr (.input hid hb hneeded hdriver)
  have hnode := hdescribes.sound.influencers_mem _ _ hinfluences
  rw [hdescribes.members, ← hperm.mem_iff] at hnode
  have hlater := (List.pairwise_cons.mp (List.pairwise_append.mp hpairwise).2.1).1
  rcases List.mem_append.mp hnode with hmem | hmem
  · exact hmem
  · rcases List.mem_cons.mp hmem with heq | hmem
    · exact absurd (.single (heq ▸ hinfluences)) (hacyclic (.block id))
    · exact absurd (.single hinfluences) (hlater _ hmem)

/-- The diagram after an iteration: every computed port has one more sample, the inputs of
the model those they are fed, and the blocks satisfy their equations. -/
structure Evaluated [Scalar α] (d : Diagram α) (inputs : List (String × α)) (tick : Tick α)
    (d' : Diagram α) : Prop where
  shape : d.SameShape d'
  grown : ∀ p ∈ d.computedPorts, ∃ (h : History α) (x : Sample α), d.history? p = some h ∧
    h.size = tick.iteration ∧ d'.history? p = some (h.push x)
  fed : ∀ p ∈ d.portIds d.root .input, ∃ name value, (d.port? p).map Port.name = some name ∧
    inputs.lookup name = some value ∧ d'.sample? p tick.iteration = some ⟨tick.time, value⟩
  satisfies : ∀ id ∈ d.primitives, ∃ b, d'.block? id = some b ∧ d'.Satisfies tick id b

end Diagram

namespace Simulation

variable {s s' : Simulation α ω} {tick : Tick α} {id : BlockId} {p : PortId} {b : Block α}
  {records more : List (PortId × Sample α)} {groups : List Group}
  {parts : List (List (PortId × Sample α))}

/-! ### What an iteration has computed -/

/-- Without loops in the schedule an iteration evaluates the diagram. -/
theorem Iterated.evaluated [Scalar α] (h : Iterated s s' tick groups parts) (hs : s.Sized)
    (hsingle : ∀ ids, .cycle ids ∉ groups) : s.diagram.Evaluated s.inputs tick s'.diagram where
  shape := h.shape
  grown p hp := by
    obtain ⟨⟨_, x⟩, hx, rfl⟩ := List.mem_map.mp (h.map_fst_perm.mem_iff.mpr hp)
    obtain ⟨history, hhistory, hsize, hpushed⟩ := h.samples hs hx
    exact ⟨history, x, hhistory, hsize, hpushed⟩
  fed p hp := by
    obtain ⟨hroot, hside, _⟩ := Diagram.mem_portIds_iff.mp hp
    have hcomputed : p ∈ s.diagram.computedPorts := List.mem_append_left _ hp
    have hmem : .port p ∈ groups := by
      obtain ⟨group, hgroup, hmem⟩ :=
        List.mem_flatMap.mp (h.covers.outputs.mem_iff.mpr hcomputed)
      cases group with
      | block id =>
          have hout := (Diagram.mem_portIds_iff.mp hmem).2.1
          rw [hside] at hout
          cases hout
      | port q =>
          rw [Diagram.groupOutputs, Diagram.nodeOutputs] at hmem
          split at hmem
          · rwa [List.mem_singleton.mp hmem]
          · cases hmem
      | cycle ids => exact absurd hgroup (hsingle ids)
    obtain ⟨records, hrecords, _, hobeys⟩ := exists_part_of_mem h.fills hmem
    obtain ⟨name, value, hname, hvalue, rfl⟩ := (hobeys.port p rfl).input ⟨hroot, hside⟩
    refine ⟨name, value, hname, hvalue, ?_⟩
    exact h.sample?_new hs (List.mem_flatten_of_mem hrecords (List.mem_singleton_self _))
  satisfies id hid := h.satisfies hs hid fun ids hmem => absurd hmem (hsingle ids)

/-! ### Steps that succeed -/

theorem record_total {x : Sample α} (hp : (s.diagram.port? p).isSome) :
    ∃ s', edit (.record p x) s = .ok () s' ∧ Recorded s s' [(p, x)] := by
  obtain ⟨port, hport⟩ := Option.isSome_iff_exists.mp hp
  have hrecord : ∃ editor, Edit.record p x s.editor = .ok () editor := by
    rw [Edit.record, Edit.modifyPort_apply, Diagram.port_eq (d := s.editor.diagram) hport]
    exact ⟨_, rfl⟩
  obtain ⟨editor, hrecord⟩ := hrecord
  have hok := edit_eq_ok.mpr ⟨editor, hrecord, rfl⟩
  exact ⟨_, hok, record_ok hok⟩

/-- A port with samples can repeat its last value. -/
theorem holdPort_total (time : α) {h : History α} {last : Sample α}
    (hp : s.diagram.history? p = some h) (hlast : h.newest? = some last) :
    ∃ s', holdPort time p s = .ok () s' ∧ Recorded s s' [(p, ⟨time, last.value⟩)] := by
  obtain ⟨port, hport, rfl⟩ := Option.map_eq_some_iff.mp hp
  refine EStateM.exists_bind (a := s.diagram) rfl
    (EStateM.exists_bind (EStateM.lift_eq_ok.mpr ⟨Diagram.port_eq hport, rfl⟩) ?_)
  rw [hlast]
  exact record_total (by rw [hport]; rfl)

theorem holdOutputs_total (time : α) (hb : s.diagram.block? id = some b)
    (hnewest : ∀ p ∈ s.diagram.portIds id .output,
      ∃ (h : History α) (last : Sample α), s.diagram.history? p = some h ∧ h.newest? = some last) :
    ∃ s', holdOutputs id time s = .ok () s' := by
  rw [Diagram.portIds_eq hb, Block.ports_output] at hnewest
  have hloop := EStateM.forM_total (f := holdPort (ω := ω) time)
    (P := fun rest s₁ => ∀ p ∈ rest, ∃ (h : History α) (last : Sample α),
      s₁.diagram.history? p = some h ∧ h.newest? = some last)
    (fun p rest s₁ hrest => ?_) hnewest
  · obtain ⟨s', hok, _⟩ := hloop
    exact EStateM.bind_total (a := s.diagram) rfl
      (EStateM.bind_total (EStateM.lift_eq_ok.mpr ⟨Diagram.block_eq hb, rfl⟩) ⟨s', hok⟩)
  · obtain ⟨⟨h, last, hp, hlast⟩, hrest⟩ := List.forall_mem_cons.mp hrest
    obtain ⟨s₂, hok, hrecorded⟩ := holdPort_total time hp hlast
    refine ⟨s₂, hok, fun q hq => ?_⟩
    obtain ⟨h', last', hq', hlast'⟩ := hrest q hq
    rw [hrecorded.diagram, Diagram.recordAll, List.foldl_cons, List.foldl_nil,
      Diagram.history?_recorded, hq']
    split
    · exact ⟨_, _, rfl, Array.back?_push⟩
    · exact ⟨h', last', rfl, hlast'⟩

theorem setOutputs_total (time : α) {values : List α} (hb : s.diagram.block? id = some b)
    (hlength : values.length = b.outputs.length) :
    ∃ s', setOutputs id time values s = .ok () s' := by
  have hports : ∀ entry ∈ values.zipIdx, (s.diagram.port? (.output id entry.2)).isSome := by
    intro entry hentry
    obtain ⟨hlt, _⟩ := List.getElem?_eq_some_iff.mp (List.mem_zipIdx_iff_getElem?.mp hentry)
    rw [Diagram.port?_eq (q := .output id entry.2) hb]
    simpa [Block.ports, hlength] using hlt
  have hloop := EStateM.forM_total
    (f := fun (entry : α × Nat) =>
      edit (ω := ω) (.record (.output id entry.2) ⟨time, entry.1⟩))
    (P := fun rest s₁ => ∀ entry ∈ rest, (s₁.diagram.port? (.output id entry.2)).isSome)
    (fun entry rest s₁ hrest => ?_) hports
  · obtain ⟨s', hok, _⟩ := hloop
    exact ⟨s', hok⟩
  · obtain ⟨hfirst, hrest⟩ := List.forall_mem_cons.mp hrest
    obtain ⟨s₂, hok, hrecorded⟩ := record_total (x := ⟨time, entry.1⟩) hfirst
    refine ⟨s₂, hok, fun other hother => ?_⟩
    rw [hrecorded.keeps.shape.port?_isSome]
    exact hrest other hother

variable [Scalar α] {values : List α}

theorem announce_total (id : BlockId) (operator : Operator α) (tick : Tick α)
    (s : Simulation α ω) : ∃ s', announce id operator tick s = .ok () s' := by
  refine EStateM.bind_total (a := s.diagram) rfl ?_
  cases operator.notice? (s.diagram.pathOf id) tick (readerOf s.diagram id) with
  | some notice => exact ⟨_, edit_eq_ok.mpr ⟨_, rfl, rfl⟩⟩
  | none => exact ⟨s, rfl⟩

theorem isDue_apply (hb : s.diagram.block? id = some b) :
    isDue id tick s = .ok (mustCompute b.rate tick.iteration tick.time) s :=
  EStateM.bind_eq_ok.mpr ⟨s.diagram, s, rfl, EStateM.bind_eq_ok.mpr
    ⟨b, s, EStateM.lift_eq_ok.mpr ⟨Diagram.block_eq hb, rfl⟩, rfl⟩⟩

/-- A block that is due succeeds if its operator computes values for its outputs. -/
theorem computeBlock_due (hb : s.diagram.block? id = some b)
    (hdue : mustCompute b.rate tick.iteration tick.time = true)
    (hvalues : b.operator.compute (s.diagram.pathOf id) tick (readerOf s.diagram id) = .ok values)
    (hlength : values.length = b.outputs.length) :
    ∃ s', computeBlock id tick s = .ok () s' ∧
      Recorded s s' (outputRecords id tick.time values) := by
  refine EStateM.exists_bind (isDue_apply hb) ?_
  rw [if_pos hdue]
  obtain ⟨s₁, hannounce⟩ := announce_total id b.operator tick s
  have hsaid := announce_ok hannounce
  have hblock : ∃ b₁, s₁.diagram.block? id = some b₁ ∧ values.length = b₁.outputs.length := by
    have hdiagram : s₁.diagram = s.diagram := hsaid.diagram
    exact ⟨b, by rw [hdiagram, hb], hlength⟩
  obtain ⟨b₁, hb₁, hlength₁⟩ := hblock
  obtain ⟨s', hset⟩ := setOutputs_total tick.time hb₁ hlength₁
  refine EStateM.exists_bind (a := s.diagram) rfl
    (EStateM.exists_bind (EStateM.lift_eq_ok.mpr ⟨Diagram.block_eq hb, rfl⟩)
      (EStateM.exists_bind hannounce
        (EStateM.exists_bind (EStateM.lift_eq_ok.mpr ⟨hvalues, rfl⟩)
          ⟨s', hset, hsaid.trans (setOutputs_ok hset)⟩)))

/-- A block that is not due succeeds if its outputs have samples. -/
theorem computeBlock_held (hb : s.diagram.block? id = some b)
    (hidle : mustCompute b.rate tick.iteration tick.time = false)
    (hnewest : ∀ p ∈ s.diagram.portIds id .output,
      ∃ (h : History α) (last : Sample α), s.diagram.history? p = some h ∧ h.newest? = some last) :
    ∃ s' records, computeBlock id tick s = .ok () s' ∧ Recorded s s' records ∧
      records.map Prod.fst = s.diagram.portIds id .output ∧
        ∀ r ∈ records, Held s.diagram tick.time r := by
  obtain ⟨s', hok⟩ := holdOutputs_total tick.time hb hnewest
  obtain ⟨records, hrecorded, hports, hheld⟩ := holdOutputs_ok hok
  refine ⟨s', records, (EStateM.bind_of_ok (isDue_apply hb)).trans ?_, hrecorded, hports, hheld⟩
  rw [if_neg (by rw [hidle]; simp)]
  exact hok

omit [Scalar α] in
/-- A port succeeds if it is no input of the model, or is given a value. -/
theorem feedInput_total (tick : Tick α)
    (hfed : p.block = s.diagram.root ∧ p.side = .input → ∃ name value,
      (s.diagram.port? p).map Port.name = some name ∧ s.inputs.lookup name = some value) :
    ∃ s', feedInput p tick s = .ok () s' := by
  refine EStateM.bind_total (a := s) rfl ?_
  split
  next hinput =>
    obtain ⟨_, value, hname, hvalue⟩ := hfed hinput
    obtain ⟨port, hport, rfl⟩ := Option.map_eq_some_iff.mp hname
    refine EStateM.bind_total (EStateM.lift_eq_ok.mpr ⟨Diagram.port_eq hport, rfl⟩) ?_
    rw [hvalue]
    obtain ⟨s', hok, _⟩ := record_total (x := ⟨tick.time, value⟩)
      (show (s.diagram.port? p).isSome by rw [hport]; rfl)
    exact ⟨s', hok⟩
  next => exact ⟨s, rfl⟩

end Simulation

/-! ### Samples of an evaluation -/

namespace Diagram.Evaluated

variable [Scalar α] {d d' : Diagram α} {inputs : List (String × α)} {tick : Tick α} {p : PortId}
  {x : Sample α} {i : Nat}

/-- The samples of earlier iterations are still there. -/
theorem past (h : d.Evaluated inputs tick d') (hp : p ∈ d.computedPorts) (hi : i < tick.iteration) :
    d'.sample? p i = d.sample? p i := by
  obtain ⟨history, x, hhistory, hsize, hpushed⟩ := h.grown p hp
  rw [sample?, sample?, hhistory, hpushed, Option.bind_some, Option.bind_some,
    Array.getElem?_push_lt (by omega), ← Array.getElem?_eq_getElem (by omega)]

/-- The history of a port is the one before with the new sample. -/
theorem history?_eq (h : d.Evaluated inputs tick d') (hp : p ∈ d.computedPorts)
    (hx : d'.sample? p tick.iteration = some x) :
    d'.history? p = (d.history? p).map fun history => history.push x := by
  obtain ⟨history, y, hhistory, hsize, hpushed⟩ := h.grown p hp
  rw [sample?, hpushed, Option.bind_some, ← hsize, Array.getElem?_push_size] at hx
  cases hx
  rw [hpushed, hhistory, Option.map_some]

end Diagram.Evaluated

namespace Simulation

/-! ### Computing the nodes in order -/

/-- On the way through the nodes: those done have recorded the samples of the evaluation. -/
structure Midway (s : Simulation α ω) (tick : Tick α) (d' : Diagram α) (done : List Node)
    (s₁ : Simulation α ω) (records : List (PortId × Sample α)) : Prop where
  recorded : Recorded s s₁ records
  ports : records.map Prod.fst = done.flatMap s.diagram.nodeOutputs
  samples : ∀ r ∈ records, d'.sample? r.1 tick.iteration = some r.2

variable [Scalar α] {s s₁ s₂ : Simulation α ω} {tick : Tick α} {d' : Diagram α} {id : BlockId}
  {p : PortId} {node : Node} {order earlier later : List Node} {port iteration : Nat} {value : α}
  {records more : List (PortId × Sample α)}

omit [Scalar α] in
theorem flatMap_nodeOutputs_perm (horder : s.diagram.Ordered iteration order) :
    (order.flatMap s.diagram.nodeOutputs).Perm s.diagram.computedPorts := by
  rw [← s.diagram.nodes_flatMap_nodeOutputs]
  exact horder.perm.flatMap_right _

namespace Midway

omit [Scalar α] in
theorem extend (h : Midway s tick d' earlier s₁ records) (hmore : Recorded s₁ s₂ more)
    (hports : more.map Prod.fst = s.diagram.nodeOutputs node)
    (hsamples : ∀ r ∈ more, d'.sample? r.1 tick.iteration = some r.2) :
    Midway s tick d' (earlier ++ [node]) s₂ (records ++ more) where
  recorded := h.recorded.trans hmore
  ports := by
    rw [List.map_append, List.flatMap_append, List.flatMap_singleton, h.ports, hports]
  samples r hr := (List.mem_append.mp hr).elim (h.samples r) (hsamples r)

variable (h : Midway s tick d' earlier s₁ records) (heval : s.diagram.Evaluated s.inputs tick d')
  (hs : s.diagram.WellFormed) (horder : s.diagram.Ordered tick.iteration (earlier ++ later))
include h

omit [Scalar α] in
theorem shape : s.diagram.SameShape s₁.diagram := h.recorded.keeps.shape

omit [Scalar α] in
theorem history?_rest (hp : p ∉ earlier.flatMap s.diagram.nodeOutputs) :
    s₁.diagram.history? p = s.diagram.history? p :=
  h.recorded.history?_of_notMem (by rwa [h.ports])

include heval hs horder

theorem history?_done (hp : p ∈ earlier.flatMap s.diagram.nodeOutputs) :
    s₁.diagram.history? p = d'.history? p := by
  have hperm := flatMap_nodeOutputs_perm horder
  have hcomputed : p ∈ s.diagram.computedPorts := by
    rw [← hperm.mem_iff, List.flatMap_append]
    exact List.mem_append_left _ hp
  have hnodup : (records.map Prod.fst).Nodup := by
    have hall := hperm.nodup_iff.mpr (s.diagram.nodup_computedPorts hs.nodup_primitives)
    rw [List.flatMap_append] at hall
    rw [h.ports]
    exact hall.of_append_left
  rw [← h.ports] at hp
  obtain ⟨⟨_, x⟩, hx, rfl⟩ := List.mem_map.mp hp
  rw [h.recorded.diagram, Diagram.history?_recordAll_of_mem hnodup hx,
    heval.history?_eq hcomputed (h.samples _ hx)]

/-- What the evaluation reads can be read already, from earlier iterations and from nodes done. -/
theorem reads (hread : readerOf d' id port iteration = .ok value)
    (hearlier : iteration < tick.iteration ∨ iteration = tick.iteration ∧
      ∀ driver, s.diagram.driverOf (.input id port) = .ok driver →
        driver ∈ earlier.flatMap s.diagram.nodeOutputs) :
    readerOf s₁.diagram id port iteration = .ok value := by
  obtain ⟨driver, x, hdriver, hx, hvalue⟩ := Diagram.readerOf_eq_ok.mp hread
  rw [heval.shape.driverOf] at hdriver
  refine Diagram.readerOf_eq_ok.mpr ⟨driver, x, by rw [h.shape.driverOf, hdriver], ?_, hvalue⟩
  by_cases hdone : driver ∈ earlier.flatMap s.diagram.nodeOutputs
  · rw [Diagram.sample?, h.history?_done heval hs horder hdone]
    exact hx
  · rcases hearlier with hpast | ⟨_, hall⟩
    · have hcomputed := hs.mem_computedPorts_iff.mpr (hs.source_of_driverOf rfl hdriver).2.2
      rw [heval.past hcomputed hpast] at hx
      rw [Diagram.sample?, h.history?_rest hdone]
      exact hx
    · exact absurd (hall driver hdriver) hdone

end Midway

/-- Once its drivers are done, a block that is due computes the samples of the evaluation. -/
theorem Midway.block_due (h : Midway s tick d' earlier s₁ records)
    (heval : s.diagram.Evaluated s.inputs tick d') (hs : s.diagram.WellFormed)
    (hported : s.diagram.Ported)
    (horder : s.diagram.Ordered tick.iteration (earlier ++ .block id :: later))
    {b : Block α} (hb : s₁.diagram.block? id = some b) (hprimitive : b.isComposite = false)
    (hsatisfies : d'.Satisfies tick id b)
    (hdue : mustCompute b.rate tick.iteration tick.time = true) :
    ∃ s₂ more, computeBlock id tick s₁ = .ok () s₂ ∧
      Midway s tick d' (earlier ++ [.block id]) s₂ (records ++ more) := by
  obtain ⟨values, hvalues, hlength, hsamples⟩ := hsatisfies.due hdue
  have hshape : s₁.diagram.SameShape d' := h.shape.symm.trans heval.shape
  obtain ⟨old, hold, hoperator, _, _⟩ := h.shape.block? hb
  have hcompute : b.operator.compute (s₁.diagram.pathOf id) tick (readerOf s₁.diagram id) =
      .ok values := by
    rw [← hshape.pathOf]
    refine Operator.compute_refines_of_needed (fun port hport value hread => ?_)
      (fun port iteration hlt value hread => h.reads heval hs horder hread (.inl hlt)) values hvalues
    refine h.reads heval hs horder hread (.inr ⟨rfl, fun driver hdriver => ?_⟩)
    obtain ⟨hlive, _, hsource⟩ := hs.source_of_driverOf rfl hdriver
    rcases hport with hneeded | hbeyond
    · rw [← hoperator] at hneeded
      have hdone := horder.after earlier id later rfl old hold port hneeded driver hdriver
      exact List.mem_flatMap.mpr ⟨_, hdone, hs.mem_nodeOutputs hsource⟩
    · -- there are no inputs beyond those of the operator
      have hlength := congrArg List.length (h.shape.ported hported id b hb hprimitive)
      rw [← h.shape.port?_isSome, Diagram.port?_eq (q := .input id port) hb, Block.ports,
        List.getElem?_eq_none (by rw [← List.length_map Port.name, hlength]; exact hbeyond)] at hlive
      cases hlive
  obtain ⟨s₂, hok, hmore⟩ := computeBlock_due hb hdue hcompute hlength
  have hports : (outputRecords id tick.time values).map Prod.fst =
      s.diagram.nodeOutputs (.block id) := by
    rw [map_fst_outputRecords hb hlength, h.shape.portIds]
    rfl
  refine ⟨s₂, _, hok, h.extend hmore hports fun r hr => ?_⟩
  obtain ⟨⟨value, i⟩, hmem, rfl⟩ := List.mem_map.mp hr
  exact hsamples i value (List.mem_zipIdx_iff_getElem?.mp hmem)

/-- A block that is not due repeats the samples that the evaluation repeats. -/
theorem Midway.block_held (h : Midway s tick d' earlier s₁ records)
    (heval : s.diagram.Evaluated s.inputs tick d') (hs : s.diagram.WellFormed)
    (horder : s.diagram.Ordered tick.iteration (earlier ++ .block id :: later))
    {b : Block α} (hb : s₁.diagram.block? id = some b) (hsatisfies : d'.Satisfies tick id b)
    (hidle : mustCompute b.rate tick.iteration tick.time = false) :
    ∃ s₂ more, computeBlock id tick s₁ = .ok () s₂ ∧
      Midway s tick d' (earlier ++ [.block id]) s₂ (records ++ more) := by
  have houtputs : s₁.diagram.portIds id .output = s.diagram.nodeOutputs (.block id) :=
    h.shape.portIds id .output
  have hperm := flatMap_nodeOutputs_perm horder
  have hnodup := hperm.nodup_iff.mpr (s.diagram.nodup_computedPorts hs.nodup_primitives)
  rw [List.flatMap_append, List.flatMap_cons, List.nodup_append'] at hnodup
  have hnewest : ∀ p ∈ s₁.diagram.portIds id .output, ∃ (history : History α) (last : Sample α),
      s₁.diagram.history? p = some history ∧ history.newest? = some last ∧
        d'.sample? p tick.iteration = some ⟨tick.time, last.value⟩ := by
    intro p hp
    have hmem := hp
    rw [houtputs] at hmem
    have hfresh : p ∉ earlier.flatMap s.diagram.nodeOutputs :=
      fun hdone => hnodup.2.2 hdone (List.mem_append_left _ hmem)
    have hcomputed : p ∈ s.diagram.computedPorts := by
      rw [← hperm.mem_iff, List.flatMap_append, List.flatMap_cons]
      exact List.mem_append_right _ (List.mem_append_left _ hmem)
    rw [Diagram.portIds_eq hb, Block.ports_output] at hp
    obtain ⟨i, hi, rfl⟩ := List.mem_map.mp hp
    obtain ⟨before, last, hiteration, hbefore, hnow⟩ :=
      hsatisfies.held hidle i (List.mem_range.mp hi)
    obtain ⟨history, _, hhistory, hsize, _⟩ := heval.grown _ hcomputed
    have hpast := heval.past hcomputed (i := before) (by omega)
    refine ⟨history, last, (h.history?_rest hfresh).trans hhistory, ?_, hnow⟩
    rw [History.newest?, Array.back?_eq_getElem?, hsize, hiteration, Nat.add_sub_cancel, ← hbefore]
    exact (hpast.trans (by rw [Diagram.sample?, hhistory, Option.bind_some])).symm
  obtain ⟨s₂, more, hok, hmore, hports, hheld⟩ := computeBlock_held hb hidle fun p hp => by
    obtain ⟨history, last, hhistory, hlast, _⟩ := hnewest p hp
    exact ⟨history, last, hhistory, hlast⟩
  refine ⟨s₂, more, hok, h.extend hmore (hports.trans houtputs) fun r hr => ?_⟩
  obtain ⟨history, last, hhistory, hlast, hvalue⟩ := hheld r hr
  obtain ⟨history', last', hhistory', hlast', hnow⟩ :=
    hnewest r.1 (hports ▸ List.mem_map_of_mem hr)
  cases hhistory.symm.trans hhistory'
  cases hlast.symm.trans hlast'
  rw [hnow, hvalue]

theorem Midway.block (h : Midway s tick d' earlier s₁ records)
    (heval : s.diagram.Evaluated s.inputs tick d') (hs : s.diagram.WellFormed)
    (hported : s.diagram.Ported)
    (horder : s.diagram.Ordered tick.iteration (earlier ++ .block id :: later)) :
    ∃ s₂ more, computeBlock id tick s₁ = .ok () s₂ ∧
      Midway s tick d' (earlier ++ [.block id]) s₂ (records ++ more) := by
  have hid : id ∈ s.diagram.primitives := by
    have hmem := horder.perm.mem_iff.mp (List.mem_append_right earlier List.mem_cons_self)
    simpa [Diagram.nodes] using hmem
  obtain ⟨b', hb', hsatisfies⟩ := heval.satisfies id hid
  have hshape : s₁.diagram.SameShape d' := h.shape.symm.trans heval.shape
  obtain ⟨b, hb, hoperator, hrate, houtputs⟩ := hshape.block? hb'
  have hprimitive : b.isComposite = false := by
    obtain ⟨old, hold, hsame, _, _⟩ := h.shape.block? hb
    have hkind := (hs.mem_primitives_iff.mp hid).2
    rw [Diagram.isComposite, hold] at hkind
    rw [Block.isComposite, ← hsame]
    exact hkind
  have hsatisfies : d'.Satisfies tick id b := by
    obtain ⟨hdue, hheld⟩ := hsatisfies
    rw [← hrate, ← hoperator, ← houtputs] at hdue
    rw [← hrate, ← houtputs] at hheld
    exact ⟨hdue, hheld⟩
  cases hdue : mustCompute b.rate tick.iteration tick.time with
  | true => exact h.block_due heval hs hported horder hb hprimitive hsatisfies hdue
  | false => exact h.block_held heval hs horder hb hsatisfies hdue

/-- An input of the model gets the sample of the evaluation. -/
theorem Midway.feed (h : Midway s tick d' earlier s₁ records)
    (heval : s.diagram.Evaluated s.inputs tick d')
    (horder : s.diagram.Ordered tick.iteration (earlier ++ .port p :: later)) :
    ∃ s₂ more, feedInput p tick s₁ = .ok () s₂ ∧
      Midway s tick d' (earlier ++ [.port p]) s₂ (records ++ more) := by
  have hinputs : s₁.inputs = s.inputs := by rw [h.recorded.rest]
  have hfed : p.block = s₁.diagram.root ∧ p.side = .input → ∃ name value,
      (s₁.diagram.port? p).map Port.name = some name ∧ s₁.inputs.lookup name = some value ∧
        d'.sample? p tick.iteration = some ⟨tick.time, value⟩ := by
    intro hinput
    have hmem := horder.perm.mem_iff.mp (List.mem_append_right earlier List.mem_cons_self)
    rw [Diagram.port_mem_nodes_iff hinput.2] at hmem
    rw [h.shape.portName?, hinputs]
    exact heval.fed p hmem
  have hgiven : p.block = s₁.diagram.root ∧ p.side = .input → ∃ name value,
      (s₁.diagram.port? p).map Port.name = some name ∧ s₁.inputs.lookup name = some value :=
    fun hinput => by
      obtain ⟨name, value, hname, hvalue, _⟩ := hfed hinput
      exact ⟨name, value, hname, hvalue⟩
  obtain ⟨s₂, hok⟩ := feedInput_total tick hgiven
  obtain ⟨more, hmore, hports, hrecords⟩ := feedInput_ok hok
  rw [h.shape.nodeOutputs] at hports
  refine ⟨s₂, more, hok, h.extend hmore hports fun r hr => ?_⟩
  by_cases hinput : p.block = s₁.diagram.root ∧ p.side = .input
  · obtain ⟨name, value, hname, hvalue, rfl⟩ := hrecords.input hinput
    obtain ⟨name', value', hname', hvalue', hsample⟩ := hfed hinput
    cases hname.symm.trans hname'
    cases hvalue.symm.trans hvalue'
    rw [List.mem_singleton.mp hr, hsample]
  · rw [hrecords.other hinput] at hr
    cases hr

theorem Midway.next (h : Midway s tick d' earlier s₁ records)
    (heval : s.diagram.Evaluated s.inputs tick d') (hs : s.diagram.WellFormed)
    (hported : s.diagram.Ported)
    (horder : s.diagram.Ordered tick.iteration (earlier ++ node :: later)) :
    ∃ s₂ more, computeGroup tick node.group s₁ = .ok () s₂ ∧
      Midway s tick d' (earlier ++ [node]) s₂ (records ++ more) := by
  cases node with
  | block id => exact h.block heval hs hported horder
  | port p => exact h.feed heval horder

/-- Computing the nodes in order succeeds, and records the samples of the evaluation. -/
theorem computeNodes_total (heval : s.diagram.Evaluated s.inputs tick d')
    (hs : s.diagram.WellFormed) (hported : s.diagram.Ported)
    (horder : s.diagram.Ordered tick.iteration order) :
    ∃ s' records, (order.map Node.group).forM (computeGroup tick) s = .ok () s' ∧
      Recorded s s' records ∧
        ∀ p ∈ s.diagram.computedPorts, s'.diagram.history? p = d'.history? p := by
  let invariant (rest : List Group) (s₁ : Simulation α ω) : Prop := ∃ earlier later records,
    earlier ++ later = order ∧ later.map Node.group = rest ∧ Midway s tick d' earlier s₁ records
  have hstep : ∀ group rest s₁, invariant (group :: rest) s₁ →
      ∃ s₂, computeGroup tick group s₁ = .ok () s₂ ∧ invariant rest s₂ := by
    rintro group rest s₁ ⟨earlier, later, records, rfl, hrest, hmidway⟩
    obtain ⟨node, later, rfl, rfl, rfl⟩ := List.map_eq_cons_iff.mp hrest
    obtain ⟨s₂, more, hok, hnext⟩ := hmidway.next heval hs hported horder
    exact ⟨s₂, hok, earlier ++ [node], later, _, by simp, rfl, hnext⟩
  have hstart : invariant (order.map Node.group) s :=
    ⟨[], order, [], rfl, rfl, .refl s, rfl, fun _ hr => by cases hr⟩
  obtain ⟨s', hok, earlier, later, records, hsplit, hnone, hdone⟩ := EStateM.forM_total hstep hstart
  rw [List.map_eq_nil_iff] at hnone
  subst hnone
  rw [List.append_nil] at hsplit
  subst hsplit
  have hend : s.diagram.Ordered tick.iteration (earlier ++ []) := by rwa [List.append_nil]
  refine ⟨s', records, hok, hdone.recorded, fun p hp => hdone.history?_done heval hs hend ?_⟩
  exact (flatMap_nodeOutputs_perm horder).mem_iff.mpr hp

end Simulation

end CausalBlocks
