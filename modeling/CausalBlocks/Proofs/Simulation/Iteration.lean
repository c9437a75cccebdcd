import CausalBlocks.Proofs.Block.Compute
import CausalBlocks.Proofs.Dependency.Build
import CausalBlocks.Proofs.Diagram.Fitting
import CausalBlocks.Simulation.Iteration

/-!
# What an iteration records

An iteration adds one sample to every port that its groups compute and changes
nothing else of the model. What a block read while it was computed can be read
afterwards, so that its new samples are what its operator computes from the new
samples of its drivers.
-/

namespace CausalBlocks

variable {α ω β : Type}

namespace Diagram

variable {d d' : Diagram α}

theorem SameShape.nodeOutputs (h : SameShape d d') : d'.nodeOutputs = d.nodeOutputs := by
  funext node
  cases node with
  | block id => exact h.portIds id .output
  | port p => rfl

theorem SameShape.groupOutputs (h : SameShape d d') : d'.groupOutputs = d.groupOutputs := by
  funext group
  cases group <;> simp only [Diagram.groupOutputs, h.nodeOutputs]

theorem SameShape.computedPorts (h : SameShape d d') : d'.computedPorts = d.computedPorts := by
  rw [Diagram.computedPorts, Diagram.computedPorts, h.primitives, root, root, h.portIds]
  simp only [h.portIds]

theorem SameShape.covers (h : SameShape d d') {groups : List Group} (hcovers : d.Covers groups) :
    d'.Covers groups where
  outputs := by
    rw [h.groupOutputs, h.computedPorts]
    exact hcovers.outputs
  blocks := by
    rw [h.primitives]
    exact hcovers.blocks
  nodup := by
    rw [h.computedPorts]
    exact hcovers.nodup

end Diagram

namespace Simulation

variable {s s' s'' : Simulation α ω} {records more : List (PortId × Sample α)}

/-- Samples were added to the model, and nothing else was changed but the journal. -/
structure Recorded (s s' : Simulation α ω) (records : List (PortId × Sample α)) : Prop where
  diagram : s'.diagram = s.diagram.recordAll records
  rest : s' = { s with editor := s'.editor }

namespace Recorded

theorem refl (s : Simulation α ω) : Recorded s s [] := ⟨rfl, rfl⟩

theorem trans (h : Recorded s s' records) (h' : Recorded s' s'' more) :
    Recorded s s'' (records ++ more) := by
  refine ⟨by rw [h'.diagram, h.diagram, Diagram.recordAll_append], ?_⟩
  rw [h'.rest, h.rest]

theorem keeps (h : Recorded s s' records) : s.diagram.Extends s'.diagram := by
  rw [h.diagram]
  exact Diagram.extends_recordAll _ _

end Recorded

/-! ### Single steps -/

theorem model_eq_ok {d : Diagram α} : model s = .ok d s' ↔ d = s.diagram ∧ s' = s :=
  EStateM.pure_eq_ok (a := s.diagram)

theorem edit_eq_ok {action : Edit α β} {x : β} :
    edit action s = .ok x s' ↔ ∃ editor, action s.editor = .ok x editor ∧ s' = { s with editor } := by
  rw [edit]
  cases action s.editor with
  | ok y editor => simp [eq_comm]
  | error failure editor => simp

theorem report_ok {notice : Notice α} (h : edit (.report notice) s = .ok () s') :
    Recorded s s' [] := by
  obtain ⟨editor, hedit, rfl⟩ := edit_eq_ok.mp h
  cases hedit
  exact ⟨rfl, rfl⟩

theorem record_ok {p : PortId} {x : Sample α} (h : edit (.record p x) s = .ok () s') :
    Recorded s s' [(p, x)] := by
  obtain ⟨editor, hedit, rfl⟩ := edit_eq_ok.mp h
  exact ⟨(Edit.modifyPort_ok hedit).2, rfl⟩

theorem Recorded.history?_of_notMem (h : Recorded s s' records) {p : PortId}
    (hp : p ∉ records.map Prod.fst) : s'.diagram.history? p = s.diagram.history? p := by
  rw [h.diagram]
  exact Diagram.history?_recordAll_of_notMem hp

/-- A list of samples has one for each port of a list, and is as it should be. -/
def Fills (ports : β → List PortId) (P : β → Diagram α → List (PortId × Sample α) → Prop)
    (d : Diagram α) (x : β) (records : List (PortId × Sample α)) : Prop :=
  records.map Prod.fst = ports x ∧ P x d records

theorem map_fst_flatten {ports : β → List PortId} {d : Diagram α} {xs : List β}
    {P : β → Diagram α → List (PortId × Sample α) → Prop}
    {parts : List (List (PortId × Sample α))} (h : List.Forall₂ (Fills ports P d) xs parts) :
    parts.flatten.map Prod.fst = xs.flatMap ports := by
  induction h with
  | nil => rfl
  | cons hfirst _ ih =>
      rw [List.flatten_cons, List.map_append, List.flatMap_cons, ih, hfirst.1]

theorem exists_of_mem_flatten {γ : Type} {R : β → List γ → Prop} {xs : List β}
    {parts : List (List γ)} (h : List.Forall₂ R xs parts) {r : γ} (hr : r ∈ parts.flatten) :
    ∃ x ∈ xs, ∃ mine, r ∈ mine ∧ R x mine := by
  induction h with
  | nil => cases hr
  | @cons x mine xs parts hfirst _ ih =>
      rw [List.flatten_cons, List.mem_append] at hr
      rcases hr with hr | hr
      · exact ⟨x, List.mem_cons_self, mine, hr, hfirst⟩
      · obtain ⟨y, hy, rest⟩ := ih hr
        exact ⟨y, List.mem_cons_of_mem x hy, rest⟩

theorem exists_part_of_mem {γ : Type} {R : β → γ → Prop} {xs : List β} {parts : List γ}
    (h : List.Forall₂ R xs parts) {x : β} (hx : x ∈ xs) : ∃ mine ∈ parts, R x mine := by
  induction h with
  | nil => cases hx
  | @cons y mine xs parts hfirst _ ih =>
      rcases List.mem_cons.mp hx with rfl | hx
      · exact ⟨mine, List.mem_cons_self, hfirst⟩
      · obtain ⟨other, hother, hR⟩ := ih hx
        exact ⟨other, List.mem_cons_of_mem mine hother, hR⟩

/-- A loop in which every turn adds samples to ports of its own. What is true of the
samples of a turn, and remains true when others are added, is true in the end. -/
theorem forM_recorded {xs : List β} {f : β → Run α ω Unit} {ports : β → List PortId}
    {P : β → Diagram α → List (PortId × Sample α) → Prop}
    (hf : ∀ x ∈ xs, ∀ s₁ s₂ earlier, Recorded s s₁ earlier →
      (∀ p ∈ ports x, s₁.diagram.history? p = s.diagram.history? p) → f x s₁ = .ok () s₂ →
        ∃ records, Recorded s₁ s₂ records ∧ Fills ports P s₂.diagram x records)
    (hmono : ∀ x d d' records, P x d records → d.Extends d' → P x d' records)
    (hnodup : (xs.flatMap ports).Nodup) (hok : xs.forM f s = .ok () s') :
    ∃ parts, Recorded s s' parts.flatten ∧ List.Forall₂ (Fills ports P s'.diagram) xs parts := by
  let invariant (rest : List β) (s₁ : Simulation α ω) : Prop := ∃ earlier parts,
    earlier ++ rest = xs ∧ Recorded s s₁ parts.flatten ∧
      List.Forall₂ (Fills ports P s₁.diagram) earlier parts
  have hstep : ∀ x rest s₁ s₂, invariant (x :: rest) s₁ → f x s₁ = .ok () s₂ →
      invariant rest s₂ := by
    rintro x rest s₁ s₂ ⟨earlier, parts, rfl, hrecorded, hearlier⟩ hx
    rw [List.flatMap_append, List.flatMap_cons, List.nodup_append'] at hnodup
    have hdisjoint := (List.disjoint_append_right.mp hnodup.2.2).1
    rw [← map_fst_flatten hearlier] at hdisjoint
    obtain ⟨mine, hmine, hfills⟩ := hf x (by simp) s₁ s₂ _ hrecorded
      (fun p hp => hrecorded.history?_of_notMem fun hmem => hdisjoint hmem hp) hx
    refine ⟨earlier ++ [x], parts ++ [mine], by simp, ?_, List.rel_append ?_ (.cons hfills .nil)⟩
    · rw [List.flatten_append, List.flatten_singleton]
      exact hrecorded.trans hmine
    · exact hearlier.imp fun y before h => ⟨h.1, hmono y _ _ before h.2 hmine.keeps⟩
  obtain ⟨earlier, parts, hxs, hrest⟩ := EStateM.forM_ok hstep ⟨[], [], rfl, .refl s, .nil⟩ hok
  rw [List.append_nil] at hxs
  rw [hxs] at hrest
  exact ⟨parts, hrest⟩

/-! ### Blocks, inputs and loops -/

/-- A sample that repeats the newest one of its port. -/
def Held (d : Diagram α) (time : α) (r : PortId × Sample α) : Prop :=
  ∃ h : History α, ∃ last, d.history? r.1 = some h ∧ h.newest? = some last ∧
    r.2 = ⟨time, last.value⟩

theorem holdPort_ok {time : α} {p : PortId} (h : holdPort time p s = .ok () s') :
    ∃ x, Recorded s s' [(p, x)] ∧ Held s.diagram time (p, x) := by
  simp only [holdPort, EStateM.bind_eq_ok, model_eq_ok, EStateM.lift_eq_ok] at h
  obtain ⟨_, s, ⟨rfl, rfl⟩, port, s, ⟨hport, rfl⟩, h⟩ := h
  cases hlast : port.history.newest? with
  | some last =>
      rw [hlast] at h
      refine ⟨_, record_ok h, port.history, last, ?_, hlast, rfl⟩
      rw [Diagram.history?, Diagram.port_eq_ok.mp hport, Option.map_some]
  | none =>
      rw [hlast] at h
      obtain ⟨_, _, _, h⟩ := EStateM.bind_eq_ok.mp h
      cases EStateM.throw_eq_ok.mp h

theorem Held.stamped {d : Diagram α} {time : α} {r : PortId × Sample α} (h : Held d time r) :
    r.2.time = time := by
  obtain ⟨_, _, _, _, hr⟩ := h
  rw [hr]

theorem Held.congr {d d' : Diagram α} {time : α} {r : PortId × Sample α}
    (h : Held d time r) (hd : d.history? r.1 = d'.history? r.1) : Held d' time r := by
  obtain ⟨history, last, hhistory, hlast, hr⟩ := h
  exact ⟨history, last, hd ▸ hhistory, hlast, hr⟩

theorem holdOutputs_ok {id : BlockId} {time : α} (h : holdOutputs id time s = .ok () s') :
    ∃ records, Recorded s s' records ∧ records.map Prod.fst = s.diagram.portIds id .output ∧
      ∀ r ∈ records, Held s.diagram time r := by
  simp only [holdOutputs, EStateM.bind_eq_ok, model_eq_ok, EStateM.lift_eq_ok] at h
  obtain ⟨_, s, ⟨rfl, rfl⟩, b, s, ⟨hb, rfl⟩, h⟩ := h
  rw [← Block.ports_output, ← Diagram.portIds_eq (Diagram.block_eq_ok.mp hb)] at h
  have hturn : ∀ p ∈ s.diagram.portIds id .output, ∀ (s₁ s₂ : Simulation α ω) earlier,
      Recorded s s₁ earlier → (∀ q ∈ [p], s₁.diagram.history? q = s.diagram.history? q) →
      holdPort time p s₁ = .ok () s₂ → ∃ records, Recorded s₁ s₂ records ∧
        Fills (fun p => [p]) (fun _ _ records => ∀ r ∈ records, Held s.diagram time r)
          s₂.diagram p records := by
    intro p _ s₁ s₂ _ _ hfresh hp
    obtain ⟨x, hrecorded, hheld⟩ := holdPort_ok hp
    refine ⟨_, hrecorded, rfl, fun r hr => ?_⟩
    rw [List.mem_singleton.mp hr]
    exact hheld.congr (hfresh p (List.mem_singleton_self p))
  obtain ⟨parts, hrecorded, hparts⟩ := forM_recorded hturn (fun _ _ _ _ h _ => h)
    (by rw [List.flatMap_singleton']; exact Diagram.nodup_portIds _ _ _) h
  refine ⟨_, hrecorded, ?_, fun r hr => ?_⟩
  · rw [map_fst_flatten hparts, List.flatMap_singleton']
  · obtain ⟨p, _, mine, hr, _, hheld⟩ := exists_of_mem_flatten hparts hr
    exact hheld r hr

variable {tick : Tick α} {id : BlockId}

/-- Where the same samples arrive, the same values are read. -/
theorem readerOf_refines_of_inputSample {d d' : Diagram α} {id : BlockId} {port iteration : Nat}
    (h : ∀ x, d.inputSample id port iteration = .ok x → d'.inputSample id port iteration = .ok x) :
    (readerOf d id port iteration).Refines (readerOf d' id port iteration) := by
  intro value hvalue
  rw [readerOf] at hvalue ⊢
  cases hsample : d.inputSample id port iteration with
  | error failure =>
      rw [hsample] at hvalue
      cases hvalue
  | ok sample =>
      rw [hsample] at hvalue
      rw [h sample hsample]
      exact hvalue

theorem readerOf_refines {d d' : Diagram α} (h : d.Extends d') (id : BlockId)
    (port iteration : Nat) : (readerOf d id port iteration).Refines (readerOf d' id port iteration) :=
  readerOf_refines_of_inputSample fun _ hx => h.inputSample hx

/-- The samples that give the outputs of a block their values. -/
def outputRecords (id : BlockId) (time : α) (values : List α) : List (PortId × Sample α) :=
  values.zipIdx.map fun (value, index) => (.output id index, ⟨time, value⟩)

theorem setOutputs_ok {time : α} {values : List α} (h : setOutputs id time values s = .ok () s') :
    Recorded s s' (outputRecords id time values) := by
  rw [setOutputs] at h
  rw [outputRecords]
  generalize values.zipIdx = indexed at h ⊢
  induction indexed generalizing s with
  | nil =>
      cases h
      exact .refl _
  | cons first rest ih =>
      obtain ⟨_, s₁, hfirst, hrest⟩ := EStateM.bind_eq_ok.mp h
      exact (record_ok hfirst).trans (ih hrest)

theorem length_outputRecords (id : BlockId) (time : α) (values : List α) :
    (outputRecords id time values).length = values.length := by
  rw [outputRecords, List.length_map, List.length_zipIdx]

theorem mem_outputRecords {time value : α} {values : List α} {i : Nat}
    (h : values[i]? = some value) :
    (.output id i, ⟨time, value⟩) ∈ outputRecords id time values :=
  List.mem_map.mpr ⟨(value, i), List.mem_zipIdx_iff_getElem?.mpr h, rfl⟩

theorem time_of_mem_outputRecords {time : α} {values : List α} {r : PortId × Sample α}
    (h : r ∈ outputRecords id time values) : r.2.time = time := by
  obtain ⟨_, _, rfl⟩ := List.mem_map.mp h
  rfl

theorem map_fst_outputRecords {d : Diagram α} {b : Block α} {time : α} {values : List α}
    (hb : d.block? id = some b) (hlength : values.length = b.outputs.length) :
    (outputRecords id time values).map Prod.fst = d.portIds id .output := by
  rw [Diagram.portIds_eq hb, Block.ports_output, ← hlength, outputRecords, List.map_map]
  refine List.ext_getElem? fun i => ?_
  simp only [List.getElem?_map, List.getElem?_zipIdx, Option.map_map]
  by_cases hi : i < values.length
  · simp [hi]
  · simp [hi]

variable [Scalar α]

theorem isDue_eq_ok {due : Bool} (h : isDue id tick s = .ok due s') :
    ∃ b, s.diagram.block? id = some b ∧ due = mustCompute b.rate tick.iteration tick.time ∧
      s' = s := by
  simp only [isDue, EStateM.bind_eq_ok, model_eq_ok, EStateM.lift_eq_ok, EStateM.pure_eq_ok] at h
  obtain ⟨_, s, ⟨rfl, rfl⟩, b, s, ⟨hb, rfl⟩, rfl, rfl⟩ := h
  exact ⟨b, Diagram.block_eq_ok.mp hb, rfl, rfl⟩

theorem announce_ok {operator : Operator α} (h : announce id operator tick s = .ok () s') :
    Recorded s s' [] := by
  simp only [announce, EStateM.bind_eq_ok, model_eq_ok] at h
  obtain ⟨_, s, ⟨rfl, rfl⟩, h⟩ := h
  cases hnotice : operator.notice? (s.diagram.pathOf id) tick (readerOf s.diagram id) with
  | some notice =>
      rw [hnotice] at h
      exact report_ok h
  | none =>
      rw [hnotice] at h
      cases h
      exact .refl _

/-- The samples that a computed block added: what its operator makes of what can be
read in the end, or its last values if it is not due. -/
structure Obeys (d₀ : Diagram α) (tick : Tick α) (id : BlockId) (b : Block α) (d : Diagram α)
    (records : List (PortId × Sample α)) : Prop where
  due : mustCompute b.rate tick.iteration tick.time = true → ∃ values,
    b.operator.compute (d₀.pathOf id) tick (readerOf d id) = .ok values ∧
      records = outputRecords id tick.time values
  held : mustCompute b.rate tick.iteration tick.time = false →
    ∀ r ∈ records, Held d₀ tick.time r

theorem Obeys.stamped {b : Block α} {d₀ d : Diagram α} (h : Obeys d₀ tick id b d records) :
    ∀ r ∈ records, r.2.time = tick.time := by
  intro r hr
  cases hdue : mustCompute b.rate tick.iteration tick.time with
  | true =>
      obtain ⟨values, _, rfl⟩ := h.due hdue
      exact time_of_mem_outputRecords hr
  | false => exact (h.held hdue r hr).stamped

/-- A block that is computed adds what its operator makes of what can be read. -/
theorem applyOperator_records (h : applyOperator id tick s = .ok () s') :
    ∃ b values, s.diagram.block? id = some b ∧
      b.operator.compute (s.diagram.pathOf id) tick (readerOf s.diagram id) = .ok values ∧
        Recorded s s' (outputRecords id tick.time values) := by
  simp only [applyOperator, EStateM.bind_eq_ok, model_eq_ok, EStateM.lift_eq_ok] at h
  obtain ⟨_, s, ⟨rfl, rfl⟩, b, s, ⟨hb, rfl⟩, _, s₁, hannounce, values, s₁, ⟨hvalues, rfl⟩, hset⟩ := h
  exact ⟨b, values, Diagram.block_eq_ok.mp hb, hvalues,
    (announce_ok hannounce).trans (setOutputs_ok hset)⟩

theorem applyOperator_ok {b : Block α} (hfitted : s.diagram.Fitted)
    (hb : s.diagram.block? id = some b) (h : applyOperator id tick s = .ok () s') :
    ∃ values, Recorded s s' (outputRecords id tick.time values) ∧
      (outputRecords id tick.time values).map Prod.fst = s.diagram.portIds id .output ∧
        b.operator.compute (s.diagram.pathOf id) tick (readerOf s'.diagram id) = .ok values := by
  obtain ⟨b', values, hb', hvalues, hrecorded⟩ := applyOperator_records h
  cases hb.symm.trans hb'
  have hlength : values.length = b.outputs.length := by
    rw [Operator.compute_ensures_length values hvalues, hfitted id b hb ?_]
    rw [Block.isComposite]
    cases hoperator : b.operator <;> try rfl
    rw [hoperator] at hvalues
    cases hvalues
  refine ⟨values, hrecorded, map_fst_outputRecords hb hlength, ?_⟩
  refine Operator.compute_refines (fun port iteration => ?_) values hvalues
  exact readerOf_refines hrecorded.keeps id port iteration

theorem computeBlock_ok (hfitted : s.diagram.Fitted) (h : computeBlock id tick s = .ok () s') :
    ∃ b records, s.diagram.block? id = some b ∧ Recorded s s' records ∧
      records.map Prod.fst = s.diagram.portIds id .output ∧
        Obeys s.diagram tick id b s'.diagram records := by
  rw [computeBlock, EStateM.bind_eq_ok] at h
  obtain ⟨due, s, hdue, h⟩ := h
  obtain ⟨b, hb, rfl, rfl⟩ := isDue_eq_ok hdue
  rw [EStateM.ite_eq_ok] at h
  rcases h with ⟨hdue, h⟩ | ⟨hdue, h⟩
  · obtain ⟨values, hrecorded, hports, hvalues⟩ := applyOperator_ok hfitted hb h
    exact ⟨b, _, hb, hrecorded, hports, fun _ => ⟨values, hvalues, rfl⟩,
      fun hnot => by rw [hdue] at hnot; cases hnot⟩
  · obtain ⟨records, hrecorded, hports, hheld⟩ := holdOutputs_ok h
    exact ⟨b, records, hb, hrecorded, hports, fun hdue' => absurd hdue' hdue, fun _ => hheld⟩

/-- The samples of a port: an input of the model has its given value, others have none. -/
structure Fed (inputs : List (String × α)) (d₀ : Diagram α) (tick : Tick α) (p : PortId)
    (records : List (PortId × Sample α)) : Prop where
  input : p.block = d₀.root ∧ p.side = .input → ∃ name value,
    (d₀.port? p).map Port.name = some name ∧ inputs.lookup name = some value ∧
      records = [(p, ⟨tick.time, value⟩)]
  other : ¬(p.block = d₀.root ∧ p.side = .input) → records = []

omit [Scalar α] in
theorem Fed.stamped {inputs : List (String × α)} {d₀ : Diagram α} {p : PortId}
    (h : Fed inputs d₀ tick p records) : ∀ r ∈ records, r.2.time = tick.time := by
  by_cases hinput : p.block = d₀.root ∧ p.side = .input
  · obtain ⟨_, _, _, _, rfl⟩ := h.input hinput
    simp
  · rw [h.other hinput]
    simp

omit [Scalar α] in
theorem feedInput_ok {p : PortId} (h : feedInput p tick s = .ok () s') :
    ∃ records, Recorded s s' records ∧ records.map Prod.fst = s.diagram.nodeOutputs (.port p) ∧
      Fed s.inputs s.diagram tick p records := by
  simp only [feedInput, EStateM.bind_eq_ok, EStateM.get_eq_ok, EStateM.ite_eq_ok,
    EStateM.lift_eq_ok, EStateM.pure_eq_ok] at h
  obtain ⟨_, s, ⟨rfl, rfl⟩, ⟨hinput, port, s, ⟨hport, rfl⟩, h⟩ | ⟨hother, _, rfl⟩⟩ := h
  · cases hvalue : s.inputs.lookup port.name with
    | some value =>
        rw [hvalue] at h
        have hname : (s.diagram.port? p).map Port.name = some port.name := by
          rw [Diagram.port_eq_ok.mp hport, Option.map_some]
        exact ⟨_, record_ok h, (if_pos hinput).symm,
          fun _ => ⟨_, value, hname, hvalue, rfl⟩, fun hother => absurd hinput hother⟩
    | none =>
        rw [hvalue] at h
        cases EStateM.throw_eq_ok.mp h
  · exact ⟨[], .refl _, (if_neg hother).symm, fun hinput => absurd hinput hother, fun _ => rfl⟩

omit [Scalar α] in
/-- A block with a linear equation has one output. -/
theorem length_outputNames_of_linear {d : Diagram α} {group : List BlockId} {iteration : Nat}
    {op : Operator α} (h : d.isLinearIn group iteration id op = .ok true) :
    op.isComposite = false ∧ op.outputNames.length = 1 := by
  cases op <;> first
    | exact ⟨rfl, rfl⟩
    | cases h

theorem solveLoop_ok {d : Diagram α} {group : List BlockId} {iteration : Nat} {values : List α}
    (hfitted : d.Fitted) (h : d.solveLoop group iteration = .ok values) :
    values.length = group.length ∧ ∀ id ∈ group, d.portIds id .output = [.output id 0] := by
  obtain ⟨_, hcheck, h⟩ := Except.bind_eq_ok.mp h
  obtain ⟨system, _, h⟩ := Except.bind_eq_ok.mp h
  constructor
  · split at h
    next =>
      cases h
      simp
    next => cases h
  · intro id hid
    have hturn := Except.forM_eq_ok hcheck id hid
    obtain ⟨b, hb, hturn⟩ := Except.bind_eq_ok.mp hturn
    obtain ⟨linear, hlinear, hturn⟩ := Except.bind_eq_ok.mp hturn
    cases linear with
    | false => cases hturn
    | true =>
        obtain ⟨hcomposite, hlength⟩ := length_outputNames_of_linear hlinear
        have hb := Diagram.block_eq_ok.mp hb
        rw [Diagram.portIds_eq hb, Block.ports_output, hfitted id b hb hcomposite, hlength]
        rfl

theorem settleMember_ok {value : α} (hports : s.diagram.portIds id .output = [.output id 0])
    (h : settleMember tick id value s = .ok () s') :
    ∃ records, Recorded s s' records ∧ records.map Prod.fst = s.diagram.portIds id .output ∧
      ∀ r ∈ records, r.2.time = tick.time := by
  rw [settleMember, EStateM.bind_eq_ok] at h
  obtain ⟨due, s, hdue, h⟩ := h
  obtain ⟨b, hb, rfl, rfl⟩ := isDue_eq_ok hdue
  rw [EStateM.ite_eq_ok] at h
  rcases h with ⟨_, h⟩ | ⟨_, h⟩
  · exact ⟨_, record_ok h, hports.symm, by simp⟩
  · obtain ⟨records, hrecorded, hports, hheld⟩ := holdOutputs_ok h
    exact ⟨records, hrecorded, hports, fun r hr => (hheld r hr).stamped⟩

theorem computeLoop_ok {ids : List BlockId} (hfitted : s.diagram.Fitted)
    (hnodup : (s.diagram.groupOutputs (.cycle ids)).Nodup)
    (h : computeLoop ids tick s = .ok () s') :
    ∃ records, Recorded s s' records ∧
      records.map Prod.fst = s.diagram.groupOutputs (.cycle ids) ∧
        ∀ r ∈ records, r.2.time = tick.time := by
  simp only [computeLoop, EStateM.bind_eq_ok, model_eq_ok, EStateM.lift_eq_ok] at h
  obtain ⟨_, s, ⟨rfl, rfl⟩, values, s, ⟨hvalues, rfl⟩, h⟩ := h
  obtain ⟨hlength, hports⟩ := solveLoop_ok hfitted hvalues
  have hids : (ids.zip values).map Prod.fst = ids := List.map_fst_zip (Nat.le_of_eq hlength.symm)
  have houtputs : (ids.zip values).flatMap (fun x => s.diagram.portIds x.1 .output) =
      s.diagram.groupOutputs (.cycle ids) := by
    calc (ids.zip values).flatMap (fun x => s.diagram.portIds x.1 .output)
      _ = ((ids.zip values).map Prod.fst).flatMap fun id => s.diagram.portIds id .output := by
          rw [List.flatMap_map]
      _ = s.diagram.groupOutputs (.cycle ids) := by rw [hids]; rfl
  have hturn : ∀ x ∈ ids.zip values, ∀ (s₁ s₂ : Simulation α ω) earlier, Recorded s s₁ earlier →
      (∀ p ∈ s.diagram.portIds x.1 .output, s₁.diagram.history? p = s.diagram.history? p) →
      settleMember tick x.1 x.2 s₁ = .ok () s₂ → ∃ records, Recorded s₁ s₂ records ∧
        Fills (fun x => s.diagram.portIds x.1 .output)
          (fun _ _ records => ∀ r ∈ records, r.2.time = tick.time) s₂.diagram x records := by
    intro x hx s₁ s₂ _ hbefore _ hsettle
    have hmem : x.1 ∈ ids := hids ▸ List.mem_map_of_mem hx
    have hsame := hbefore.keeps.shape.portIds x.1 .output
    obtain ⟨records, hrecorded, hrecords, hstamped⟩ :=
      settleMember_ok (by rw [hsame, hports _ hmem]) hsettle
    exact ⟨records, hrecorded, hrecords.trans hsame, hstamped⟩
  obtain ⟨parts, hrecorded, hparts⟩ := forM_recorded hturn (fun _ _ _ _ h _ => h)
    (by rwa [houtputs]) h
  refine ⟨_, hrecorded, (map_fst_flatten hparts).trans houtputs, fun r hr => ?_⟩
  obtain ⟨_, _, mine, hr, _, hstamped⟩ := exists_of_mem_flatten hparts hr
  exact hstamped r hr

/-! ### A whole iteration -/

/-- The samples of a group carry the time of the tick. If it is a single block they obey it,
if it is a port they are what it is fed. -/
structure GroupObeys (inputs : List (String × α)) (d₀ : Diagram α) (tick : Tick α) (group : Group)
    (d : Diagram α) (records : List (PortId × Sample α)) : Prop where
  stamped : ∀ r ∈ records, r.2.time = tick.time
  block : ∀ id, group = .block id → ∃ b, d₀.block? id = some b ∧ Obeys d₀ tick id b d records
  port : ∀ p, group = .port p → Fed inputs d₀ tick p records

theorem GroupObeys.mono {inputs : List (String × α)} {d₀ d d' : Diagram α} {group : Group}
    (h : GroupObeys inputs d₀ tick group d records) (hd : d.Extends d') :
    GroupObeys inputs d₀ tick group d' records := by
  refine ⟨h.stamped, fun id hid => ?_, h.port⟩
  obtain ⟨b, hb, hdue, hheld⟩ := h.block id hid
  refine ⟨b, hb, fun hdue' => ?_, hheld⟩
  obtain ⟨values, hvalues, hrecords⟩ := hdue hdue'
  exact ⟨values, Operator.compute_refines (readerOf_refines hd id) values hvalues, hrecords⟩

/-- Samples added meanwhile to other ports do not matter. -/
theorem GroupObeys.rebase {inputs : List (String × α)} {d₀ d₁ d : Diagram α} {group : Group}
    (h : GroupObeys inputs d₁ tick group d records) (hshape : d₀.SameShape d₁)
    (hfresh : ∀ r ∈ records, d₁.history? r.1 = d₀.history? r.1) :
    GroupObeys inputs d₀ tick group d records := by
  refine ⟨h.stamped, fun id hid => ?_, fun p hp => ?_⟩
  swap
  · obtain ⟨hinput, hother⟩ := h.port p hp
    rw [hshape.portName?] at hinput
    exact ⟨hinput, hother⟩
  obtain ⟨b₁, hb₁, hdue, hheld⟩ := h.block id hid
  obtain ⟨b, hb, hoperator, hrate, _⟩ := hshape.block? hb₁
  rw [← hrate, ← hoperator, hshape.pathOf] at hdue
  rw [← hrate] at hheld
  exact ⟨b, hb, hdue, fun hnot r hr => (hheld hnot r hr).congr (hfresh r hr)⟩

theorem computeGroup_ok {group : Group} (hfitted : s.diagram.Fitted)
    (hnodup : (s.diagram.groupOutputs group).Nodup) (h : computeGroup tick group s = .ok () s') :
    ∃ records, Recorded s s' records ∧ records.map Prod.fst = s.diagram.groupOutputs group ∧
      GroupObeys s.inputs s.diagram tick group s'.diagram records := by
  cases group with
  | block id =>
      obtain ⟨b, records, hb, hrecorded, hports, hobeys⟩ := computeBlock_ok hfitted h
      refine ⟨records, hrecorded, hports, hobeys.stamped, fun id' hid => ?_, fun _ => Group.noConfusion⟩
      cases hid
      exact ⟨b, hb, hobeys⟩
  | port p =>
      obtain ⟨records, hrecorded, hports, hfed⟩ := feedInput_ok h
      refine ⟨records, hrecorded, hports, hfed.stamped, fun _ => Group.noConfusion, fun p' hp => ?_⟩
      cases hp
      exact hfed
  | cycle ids =>
      obtain ⟨records, hrecorded, hports, hstamped⟩ := computeLoop_ok hfitted hnodup h
      exact ⟨records, hrecorded, hports, hstamped, fun _ => Group.noConfusion,
        fun _ => Group.noConfusion⟩

theorem computeGroups_ok_of_nodup {groups : List Group} (hfitted : s.diagram.Fitted)
    (hnodup : (groups.flatMap s.diagram.groupOutputs).Nodup)
    (h : groups.forM (computeGroup tick) s = .ok () s') :
    ∃ parts, Recorded s s' parts.flatten ∧ List.Forall₂
      (Fills s.diagram.groupOutputs (GroupObeys s.inputs s.diagram tick) s'.diagram) groups parts := by
  refine forM_recorded ?_ (fun _ _ _ _ hobeys hd => hobeys.mono hd) hnodup h
  intro group hgroup s₁ s₂ _ hbefore hfresh hok
  have hextends := hbefore.keeps
  have houtputs := hextends.shape.groupOutputs
  have hnodup₁ : (s₁.diagram.groupOutputs group).Nodup := by
    rw [houtputs]
    exact (List.nodup_flatMap.mp hnodup).1 group hgroup
  obtain ⟨records, hrecorded, hports, hobeys⟩ :=
    computeGroup_ok (hextends.shape.fitted hfitted) hnodup₁ hok
  have hinputs : s₁.inputs = s.inputs := by rw [hbefore.rest]
  rw [houtputs] at hports
  rw [hinputs] at hobeys
  refine ⟨records, hrecorded, hports, hobeys.rebase hextends.shape fun r hr => hfresh r.1 ?_⟩
  rw [← hports]
  exact List.mem_map_of_mem hr

theorem computeGroups_ok {groups : List Group} (hfitted : s.diagram.Fitted)
    (hcovers : s.diagram.Covers groups) (h : groups.forM (computeGroup tick) s = .ok () s') :
    ∃ parts, Recorded s s' parts.flatten ∧ List.Forall₂
      (Fills s.diagram.groupOutputs (GroupObeys s.inputs s.diagram tick) s'.diagram) groups parts :=
  computeGroups_ok_of_nodup hfitted (hcovers.outputs.nodup_iff.mpr hcovers.nodup) h

omit [Scalar α] in
theorem renewGraph_ok {iteration : Nat} {g : DependencyGraph}
    (h : renewGraph iteration s = .ok g s') :
    s.diagram.Covers g.schedule ∧ s' = { s with graph := some g } := by
  simp only [renewGraph, EStateM.bind_eq_ok, model_eq_ok, EStateM.lift_eq_ok,
    EStateM.modify_eq_ok, EStateM.pure_eq_ok] at h
  obtain ⟨_, s, ⟨rfl, rfl⟩, g, s, ⟨hg, rfl⟩, _, s₁, rfl, rfl, rfl⟩ := h
  exact ⟨DependencyGraph.schedule_covers (DependencyGraph.describesNodes_of_dependencies hg), rfl⟩

omit [Scalar α] in
theorem currentGraph_ok {iteration : Nat} {g : DependencyGraph}
    (hgraph : ∀ g, s.graph = some g → s.diagram.Covers g.schedule)
    (h : currentGraph iteration s = .ok g s') :
    s.diagram.Covers g.schedule ∧ s' = { s with graph := some g } := by
  simp only [currentGraph, EStateM.bind_eq_ok, EStateM.get_eq_ok] at h
  obtain ⟨_, s, ⟨rfl, rfl⟩, h⟩ := h
  cases hg : s.graph with
  | none =>
      simp only [hg] at h
      exact renewGraph_ok h
  | some old =>
      cases hrenew : s.scheduler.policy.recomputesAt iteration with
      | true =>
          simp only [hg, hrenew] at h
          exact renewGraph_ok h
      | false =>
          simp only [hg, hrenew, EStateM.pure_eq_ok] at h
          obtain ⟨rfl, rfl⟩ := h
          exact ⟨hgraph g hg, by rw [← hg]⟩

theorem obtain_fst_snd (scheduler : Scheduler) (g : DependencyGraph) (iteration : Nat) :
    (scheduler.obtain g iteration).2.kept = some (scheduler.obtain g iteration).1 ∧
      (scheduler.kept = some (scheduler.obtain g iteration).1 ∨
        (scheduler.obtain g iteration).1 = g.schedule) := by
  rw [Scheduler.obtain]
  split
  next groups hkept _ => exact ⟨hkept, .inl hkept⟩
  next => exact ⟨rfl, .inr rfl⟩

omit [Scalar α] in
theorem currentSchedule_ok {iteration : Nat} {groups : List Group}
    (hgraph : ∀ g, s.graph = some g → s.diagram.Covers g.schedule)
    (hkept : ∀ groups, s.scheduler.kept = some groups → s.diagram.Covers groups)
    (h : currentSchedule iteration s = .ok groups s') :
    s.diagram.Covers groups ∧ s'.scheduler.kept = some groups ∧
      (∀ g, s'.graph = some g → s.diagram.Covers g.schedule) ∧
        s' = { s with graph := s'.graph, scheduler := s'.scheduler } := by
  simp only [currentSchedule, EStateM.bind_eq_ok, EStateM.get_eq_ok, EStateM.modify_eq_ok,
    EStateM.pure_eq_ok] at h
  obtain ⟨g, s₁, hg, _, _, ⟨rfl, rfl⟩, _, s₂, rfl, rfl, rfl⟩ := h
  obtain ⟨hcovers, rfl⟩ := currentGraph_ok hgraph hg
  obtain ⟨hnew, hsource⟩ := obtain_fst_snd s.scheduler g iteration
  refine ⟨?_, hnew, fun g' hg' => ?_, rfl⟩
  · rcases hsource with hold | hfresh
    · exact hkept _ hold
    · dsimp only
      rw [hfresh]
      exact hcovers
  · cases hg'
    exact hcovers

omit [Scalar α] in
theorem clockParameters_eq_ok {clock : BlockId} {start step : α} :
    s.clockParameters clock = .ok (start, step) ↔
      ∃ b, s.diagram.block? clock = some b ∧ b.operator = .clock start step := by
  simp only [clockParameters, Except.bind_eq_ok, Diagram.block_eq_ok]
  refine exists_congr fun b => and_congr_right fun _ => ?_
  split
  next hoperator => simp [hoperator, pure, Except.pure]
  next hother => exact iff_of_false (fun h => by cases h) fun h => hother _ _ h

/-- What an iteration leaves behind: the samples of its groups, part by part. Its time and
its messages do not matter to the model. -/
structure Iterated (s s' : Simulation α ω) (tick : Tick α) (groups : List Group)
    (parts : List (List (PortId × Sample α))) : Prop where
  next : s.nextTick = .ok tick
  covers : s.diagram.Covers groups
  kept : s'.scheduler.kept = some groups
  graph : ∀ g, s'.graph = some g → s.diagram.Covers g.schedule
  diagram : s'.diagram = s.diagram.recordAll parts.flatten
  fills : List.Forall₂ (Fills s.diagram.groupOutputs (GroupObeys s.inputs s.diagram tick) s'.diagram)
    groups parts
  rest : s' = { s with
    editor := s'.editor, graph := s'.graph, scheduler := s'.scheduler,
    iteration := s.iteration + 1, tracers := s'.tracers, time := s'.time }

theorem computeStep_ok (hfitted : s.diagram.Fitted)
    (hgraph : ∀ g, s.graph = some g → s.diagram.Covers g.schedule)
    (hkept : ∀ groups, s.scheduler.kept = some groups → s.diagram.Covers groups)
    (h : computeStep s = .ok () s') : ∃ tick groups parts, Iterated s s' tick groups parts := by
  simp only [computeStep, EStateM.bind_eq_ok, EStateM.get_eq_ok, EStateM.lift_eq_ok,
    EStateM.modify_eq_ok] at h
  obtain ⟨_, s, ⟨rfl, rfl⟩, tick, s, ⟨htick, rfl⟩, groups, s₁, hschedule, _, s₂, hgroups, rfl⟩ := h
  obtain ⟨hcovers, hnew, hgraph', hs₁⟩ := currentSchedule_ok hgraph hkept hschedule
  have hdiagram : s₁.diagram = s.diagram := by rw [hs₁]; rfl
  have hinputs : s₁.inputs = s.inputs := by rw [hs₁]
  rw [← hdiagram] at hfitted hcovers
  obtain ⟨parts, hrecorded, hfills⟩ := computeGroups_ok hfitted hcovers hgroups
  rw [hdiagram] at hcovers hfills
  rw [hinputs] at hfills
  refine ⟨tick, groups, parts, htick, hcovers, ?_, fun g hg => hgraph' g ?_, ?_, hfills, ?_⟩
  · rw [hrecorded.rest]
    exact hnew
  · rw [hrecorded.rest] at hg
    exact hg
  · rw [← hdiagram]
    exact hrecorded.diagram
  · rw [hrecorded.rest, hs₁]

end Simulation

end CausalBlocks
