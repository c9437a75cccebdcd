import CausalBlocks.Proofs.Diagram.Clocking
import CausalBlocks.Proofs.Simulation.Underway

/-!
# One iteration beyond a cone

Two simulations whose diagrams are the same beyond a cone compute the same groups at the same tick.
A group that the cone does not touch reads the same in both and so records the same; one that it
touches records nothing beyond the cone. Held outputs and inputs of the model are the same too.
-/

namespace CausalBlocks.Simulation

variable {α ω β : Type} {s s' t t' : Simulation α ω} {d : Diagram α} {c id clock : BlockId}
  {cone : PortId → Prop} {records records' : List (PortId × Sample α)} {p : PortId}

/-! ### Records that differ in a cone -/

/-- Two lists of samples for the same ports that differ at most in a cone. -/
def RecordsBeyond (cone : PortId → Prop) :
    List (PortId × Sample α) → List (PortId × Sample α) → Prop :=
  List.Forall₂ fun r r' => r'.1 = r.1 ∧ (¬cone r.1 → r'.2 = r.2)

theorem RecordsBeyond.refl (cone : PortId → Prop) (records : List (PortId × Sample α)) :
    RecordsBeyond cone records records :=
  List.forall₂_same.mpr fun _ _ => ⟨rfl, fun _ => rfl⟩

theorem RecordsBeyond.of_map_fst (hports : records'.map Prod.fst = records.map Prod.fst)
    (hsame : ∀ p x y, (p, x) ∈ records → (p, y) ∈ records' → ¬cone p → y = x) :
    RecordsBeyond cone records records' := by
  induction records generalizing records' with
  | nil =>
      obtain rfl := List.map_eq_nil_iff.mp hports
      exact .nil
  | cons r rest ih =>
      cases records' with
      | nil => cases hports
      | cons r' rest' =>
          obtain ⟨hport, hports⟩ := List.cons.inj hports
          refine .cons ⟨hport, fun hbeyond => ?_⟩ (ih hports fun p x y hx hy =>
            hsame p x y (List.mem_cons_of_mem r hx) (List.mem_cons_of_mem r' hy))
          refine hsame r.1 r.2 r'.2 List.mem_cons_self ?_ hbeyond
          rw [← hport]
          exact List.mem_cons_self

theorem RecordsBeyond.history?_recordAll {e : Diagram α} (h : RecordsBeyond cone records records')
    (hp : ¬cone p) (hsame : e.history? p = d.history? p) :
    (e.recordAll records').history? p = (d.recordAll records).history? p := by
  induction h generalizing d e with
  | nil => exact hsame
  | @cons r r' rest rest' hfirst _ ih =>
      obtain ⟨hport, hsample⟩ := hfirst
      refine ih ?_
      rw [Diagram.history?_recorded, Diagram.history?_recorded, hport, hsame]
      split
      next heq => rw [hsample (heq ▸ hp)]
      next => rfl

/-! ### Two simulations side by side -/

/-- Two simulations with the shape of a diagram that are the same beyond a cone. -/
structure Insulated (d : Diagram α) (c : BlockId) (cone : PortId → Prop) (s t : Simulation α ω) :
    Prop where
  shape : d.SameShape s.diagram
  same : s.diagram.SameBeyond c cone t.diagram
  inputs : t.inputs = s.inputs

theorem Insulated.recorded (h : Insulated d c cone s t) (hs : Recorded s s' records)
    (ht : Recorded t t' records') (hrecords : RecordsBeyond cone records records') :
    Insulated d c cone s' t' where
  shape := h.shape.trans hs.keeps.shape
  same := by
    refine h.same.congr hs.keeps.shape ht.keeps.shape fun p hp => ?_
    rw [hs.diagram, ht.diagram]
    exact hrecords.history?_recordAll hp (h.same.same p hp)
  inputs := by
    rw [hs.rest, ht.rest]
    exact h.inputs

/-- A step that leaves simulations the same beyond a cone, where it succeeds with both. -/
def Insulates (d : Diagram α) (c : BlockId) (cone : PortId → Prop) (action : Run α ω Unit) : Prop :=
  ∀ s t s' t', Insulated d c cone s t → action s = .ok () s' → action t = .ok () t' →
    Insulated d c cone s' t'

theorem Insulates.forM {f : β → Run α ω Unit} {xs : List β}
    (hf : ∀ x ∈ xs, Insulates d c cone (f x)) : Insulates d c cone (xs.forM f) := by
  induction xs with
  | nil =>
      intro s t s' t' h hs ht
      obtain ⟨_, rfl⟩ := EStateM.pure_eq_ok.mp hs
      obtain ⟨_, rfl⟩ := EStateM.pure_eq_ok.mp ht
      exact h
  | cons x rest ih =>
      intro s t s' t' h hs ht
      obtain ⟨hfirst, hrest⟩ := List.forall_mem_cons.mp hf
      obtain ⟨_, s₁, hs₁, hs⟩ := EStateM.bind_eq_ok.mp hs
      obtain ⟨_, t₁, ht₁, ht⟩ := EStateM.bind_eq_ok.mp ht
      exact ih hrest s₁ t₁ s' t' (hfirst s t s₁ t₁ h hs₁ ht₁) hs ht

namespace Insulates

/-- The last values are repeated, and are the same beyond the cone. -/
theorem holdOutputs (id : BlockId) (time : α) :
    Insulates d c cone (holdOutputs id time : Run α ω Unit) := by
  intro s t s' t' h hs ht
  obtain ⟨records, hs, hports, hheld⟩ := holdOutputs_ok hs
  obtain ⟨records', ht, hports', hheld'⟩ := holdOutputs_ok ht
  refine h.recorded hs ht (.of_map_fst ?_ fun p x y hx hy hp => ?_)
  · rw [hports, hports', h.same.frame.portIds]
  · obtain ⟨history, last, hhistory, hlast, hx⟩ := hheld _ hx
    obtain ⟨history', last', hhistory', hlast', hy⟩ := hheld' _ hy
    have hsame := h.same.same p hp
    cases hhistory.symm.trans (hsame.symm.trans hhistory')
    cases hlast.symm.trans hlast'
    exact hy.trans hx.symm

variable [Scalar α] {tick : Tick α}

omit [Scalar α] in
theorem feedInput (p : PortId) (tick : Tick α) :
    Insulates d c cone (feedInput p tick : Run α ω Unit) := by
  intro s t s' t' h hs ht
  obtain ⟨records, hs, _, hfed⟩ := feedInput_ok hs
  obtain ⟨records', ht, _, hfed'⟩ := feedInput_ok ht
  suffices hrecords : records' = records by
    rw [hrecords] at ht
    exact h.recorded hs ht (.refl _ _)
  by_cases hinput : p.block = ⟨0⟩ ∧ p.side = .input
  · obtain ⟨name, value, hname, hvalue, rfl⟩ := hfed.input hinput
    obtain ⟨name', value', hname', hvalue', rfl⟩ := hfed'.input hinput
    obtain ⟨port, hport, rfl⟩ := Option.map_eq_some_iff.mp hname
    obtain ⟨port', hport', rfl⟩ := Option.map_eq_some_iff.mp hname'
    obtain ⟨_, hsame, hbare⟩ := h.same.frame.port hport
    cases hport'.symm.trans hsame
    have hnames : port'.bare.name = port.bare.name := by rw [hbare]
    change port'.name = port.name at hnames
    rw [h.inputs, hnames, hvalue] at hvalue'
    cases hvalue'
    rfl
  · rw [hfed.other hinput, hfed'.other hinput]

end Insulates

/-- A block is due in both simulations or in none. -/
theorem Insulated.isDue_same [Scalar α] {tick : Tick α} {due due' : Bool}
    (h : Insulated d c cone s t) (hs : isDue id tick s = .ok due s')
    (ht : isDue id tick t = .ok due' t') : due' = due ∧ s' = s ∧ t' = t := by
  obtain ⟨b, hb, rfl, rfl⟩ := isDue_eq_ok hs
  obtain ⟨b', hb', rfl, rfl⟩ := isDue_eq_ok ht
  obtain ⟨_, hsame, hrate, _⟩ := h.same.block id b hb
  cases hb'.symm.trans hsame
  exact ⟨by rw [hrate], rfl, rfl⟩

/-! ### Groups -/

variable [Scalar α] {tick : Tick α} {ids : List BlockId}

namespace Insulates

theorem settleMember (tick : Tick α) (id : BlockId) (value : α) :
    Insulates d c cone (settleMember tick id value : Run α ω Unit) := by
  intro s t s' t' h hs ht
  obtain ⟨due, s₁, hdue, hs⟩ := EStateM.bind_eq_ok.mp hs
  obtain ⟨due', t₁, hdue', ht⟩ := EStateM.bind_eq_ok.mp ht
  obtain ⟨rfl, rfl, rfl⟩ := h.isDue_same hdue hdue'
  cases due' with
  | true => exact h.recorded (record_ok hs) (record_ok ht) (.refl _ _)
  | false => exact holdOutputs id tick.time s₁ t₁ s' t' h hs ht

/-- A block that is touched records in the cone only, whatever it reads. -/
theorem computeGroup_touched {group : Group} (hfitted : d.Fitted)
    (hnodup : (d.groupOutputs group).Nodup) (hinside : ∀ p ∈ d.groupOutputs group, cone p) :
    Insulates d c cone (computeGroup tick group : Run α ω Unit) := by
  intro s t s' t' h hs ht
  have houtputs := h.shape.groupOutputs
  have houtputs' : t.diagram.groupOutputs = s.diagram.groupOutputs := by
    funext group
    cases group with
    | port p => rfl
    | block id => exact h.same.frame.portIds id .output
    | cycle ids => exact List.flatMap_congr fun id _ => h.same.frame.portIds id .output
  have hs₀ := h.shape.fitted hfitted
  obtain ⟨records, hs, hports, _⟩ := computeGroup_ok hs₀ (by rwa [houtputs]) hs
  obtain ⟨records', ht, hports', _⟩ :=
    computeGroup_ok (h.same.fitted hs₀) (by rwa [houtputs', houtputs]) ht
  refine h.recorded hs ht (.of_map_fst ?_ fun p x y hx _ hp => absurd (hinside p ?_) hp)
  · rw [hports, hports', houtputs']
  · rw [← houtputs, ← hports]
    exact List.mem_map_of_mem hx

variable (hcone : d.Cone c cone)
include hcone

theorem applyOperator (huntouched : ¬Diagram.Touched c cone id) :
    Insulates d c cone (applyOperator id tick : Run α ω Unit) := by
  intro s t s' t' h hs ht
  obtain ⟨b, values, hb, hvalues, hs⟩ := applyOperator_records hs
  obtain ⟨b', values', hb', hvalues', ht⟩ := applyOperator_records ht
  obtain ⟨_, hsame, _, _, hoperator⟩ := h.same.block id b hb
  cases hb'.symm.trans hsame
  have hread : ∀ port iteration, (readerOf s.diagram id port iteration).Refines
      (readerOf t.diagram id port iteration) := fun port iteration =>
    readerOf_refines_of_inputSample (h.same.inputSample (hcone.congr h.shape)
      fun hinside => huntouched (.inr ⟨port, hinside⟩))
  have hsame := Operator.compute_refines hread values hvalues
  rw [hoperator fun hc => huntouched (.inl hc), h.same.frame.pathOf h.same.size, hsame] at hvalues'
  cases hvalues'
  exact h.recorded hs ht (.refl _ _)

theorem computeBlock (huntouched : ¬Diagram.Touched c cone id) :
    Insulates d c cone (computeBlock id tick : Run α ω Unit) := by
  intro s t s' t' h hs ht
  obtain ⟨due, s₁, hdue, hs⟩ := EStateM.bind_eq_ok.mp hs
  obtain ⟨due', t₁, hdue', ht⟩ := EStateM.bind_eq_ok.mp ht
  obtain ⟨rfl, rfl, rfl⟩ := h.isDue_same hdue hdue'
  cases due' with
  | true => exact applyOperator hcone huntouched s₁ t₁ s' t' h hs ht
  | false => exact holdOutputs id tick.time s₁ t₁ s' t' h hs ht

/-- A loop that is not touched has the same equations and so the same solution. -/
theorem computeLoop (huntouched : ∀ id ∈ ids, ¬Diagram.Touched c cone id) :
    Insulates d c cone (computeLoop ids tick : Run α ω Unit) := by
  intro s t s' t' h hs ht
  simp only [Simulation.computeLoop, EStateM.bind_eq_ok, model_eq_ok, EStateM.lift_eq_ok] at hs ht
  obtain ⟨_, s, ⟨rfl, rfl⟩, values, s, ⟨hvalues, rfl⟩, hs⟩ := hs
  obtain ⟨_, t, ⟨rfl, rfl⟩, values', t, ⟨hvalues', rfl⟩, ht⟩ := ht
  have hreads : ∀ id ∈ ids, Diagram.ReadsAlike s.diagram t.diagram tick.iteration id :=
    fun id hid => h.same.readsAlike (hcone.congr h.shape) (huntouched id hid)
  cases (Diagram.solveLoop_refines hreads values hvalues).symm.trans hvalues'
  exact forM (fun x _ => settleMember tick x.1 x.2) s t s' t' h hs ht

/-- A group of the schedule is insulated, whether the cone touches it or not. -/
theorem computeGroup {iteration : Nat} {g : DependencyGraph} {group : Group}
    (hd : d.WellFormed) (hfitted : d.Fitted) (hg : d.dependencies iteration = .ok g)
    (hgroup : group ∈ g.schedule) :
    Insulates d c cone (computeGroup tick group : Run α ω Unit) := by
  have hcovers :=
    DependencyGraph.schedule_covers (DependencyGraph.describesNodes_of_dependencies hg)
  have hnodup : (d.groupOutputs group).Nodup :=
    (List.nodup_flatMap.mp (hcovers.outputs.nodup_iff.mpr hcovers.nodup)).1 group hgroup
  have hprimitive : ∀ id ∈ group.blocks, d.isComposite id = false := by
    intro id hid
    have hmem := hcovers.blocks.mem_iff.mp (List.mem_flatMap.mpr ⟨group, hgroup, hid⟩)
    exact (hd.mem_primitives_iff.mp hmem).2
  have hinside : ∀ id, d.isComposite id = false → Diagram.Touched c cone id →
      ∀ p ∈ d.portIds id .output, cone p := by
    intro id hid htouched p hp
    obtain ⟨block, side, port⟩ := p
    obtain ⟨rfl, rfl, _⟩ := Diagram.mem_portIds_iff.mp hp
    exact hcone.output hid htouched port
  cases group with
  | port p => exact feedInput p tick
  | block id =>
      by_cases htouched : Diagram.Touched c cone id
      · exact computeGroup_touched hfitted hnodup
          (hinside id (hprimitive id (List.mem_singleton_self id)) htouched)
      · exact computeBlock hcone htouched
  | cycle ids =>
      rcases hcone.cycle hd hg hgroup with htouched | huntouched
      · refine computeGroup_touched hfitted hnodup fun p hp => ?_
        obtain ⟨id, hid, hp⟩ := List.mem_flatMap.mp hp
        exact hinside id (hprimitive id hid) (htouched id hid) p hp
      · exact computeLoop hcone huntouched

/-- The groups of an iteration are insulated, one after the other. -/
theorem computeGroups {iteration : Nat} {g : DependencyGraph} (hd : d.WellFormed)
    (hfitted : d.Fitted) (hg : d.dependencies iteration = .ok g) :
    Insulates d c cone (g.schedule.forM (Simulation.computeGroup tick) : Run α ω Unit) :=
  forM fun _ hgroup => computeGroup hcone hd hfitted hg hgroup

end Insulates

end CausalBlocks.Simulation
