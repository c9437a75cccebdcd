import CausalBlocks.Proofs.Diagram.Lookup
import CausalBlocks.Proofs.Simulation.Twins

/-!
# Runs of flattened models

A model behaves as it did before it was flattened: where a number of steps can be run, it
can be run afterwards, and every block computes the same.
-/

namespace CausalBlocks

variable {α ω : Type}

theorem Block.SameWork.outputIndex? {b c : Block α} (h : b.SameWork c) (name : String) :
    c.outputIndex? name = b.outputIndex? name := by
  have hnames := congrArg (fun names => names.findIdx? (· == name)) (h.ports .output)
  rwa [List.findIdx?_map, List.findIdx?_map] at hnames

theorem Block.exists_outputIndex? {b : Block α} {port : Port α} (h : port ∈ b.outputs) :
    ∃ index < b.outputs.length, b.outputIndex? port.name = some index := by
  have hfound : (b.outputIndex? port.name).isSome := by
    rw [Block.outputIndex?, List.findIdx?_isSome]
    exact List.any_eq_true.mpr ⟨port, h, beq_self_eq_true _⟩
  obtain ⟨index, hindex⟩ := Option.isSome_iff_exists.mp hfound
  exact ⟨index, (List.findIdx?_eq_some_iff_findIdx_eq.mp hindex).1, hindex⟩

namespace Diagram

variable {d d' e e' : Diagram α} {id : BlockId} {p : PortId} {name : String}

/-- Some block of the model is a clock. -/
def HasClock (d : Diagram α) : Prop :=
  ∃ id ∈ d.primitives, ∃ b, d.block? id = some b ∧ b.operator.isClock = true

theorem HasClock.clock_ne (h : d.HasClock) (name : String) :
    d.clock ≠ .error (.missingClock name) := by
  intro hmissing
  obtain ⟨id, hid, b, hb, hclock⟩ := h
  rw [Diagram.clock] at hmissing
  split at hmissing
  next hnone =>
    refine List.filter_eq_nil_iff.mp hnone id hid ?_
    rw [hb]
    exact hclock
  next => cases hmissing
  next => cases hmissing

/-- Two diagrams show the same at the outputs of the primitives of a third one, and under the
names of its own outputs. -/
structure ShowAlike (d d' e' : Diagram α) : Prop where
  blocks : ∀ id ∈ d.primitives, ∀ p ∈ d.portIds id .output, ∃ history : History α,
    d'.history? p = some history ∧ e'.history? p = some history
  signals : ∀ p ∈ d.portIds d.root .output, ∀ name, (d.port? p).map Port.name = some name →
    ∃ history, d'.signalHistory name = .ok history ∧ e'.signalHistory name = .ok history

theorem WellFormed.prevClosure_of_source? (h : d.WellFormed) (hp : (d.port? p).isSome)
    {source : PortId} (hsource : d.source? p = some source) : d.prevClosure p = .ok source :=
  (h.prevClosure_eq_ok_iff hp).mpr ((h.source?_eq_some_iff hp).mp hsource).1

end Diagram

namespace Simulation

variable {s s₁ t : Simulation α ω} {p : PortId}

/-- A port without a source has nothing to show. -/
theorem Sized.historyOf_unsourced (h : s.Sized) (hs : s.diagram.WellFormed)
    (hp : (s.diagram.port? p).isSome) {last : PortId} (hlast : s.diagram.prevClosure p = .ok last)
    (hnone : s.diagram.source? p = none) : s.diagram.historyOf p = .ok #[] := by
  have hends := (hs.prevClosure_eq_ok_iff hp).mp hlast
  have hother : last ∉ s.diagram.computedPorts := by
    intro hcomputed
    have harises := hs.mem_computedPorts_iff.mp hcomputed
    cases hnone.symm.trans ((hs.source?_eq_some_iff hp).mpr ⟨hends, harises⟩)
  obtain ⟨port, hport⟩ := Option.isSome_iff_exists.mp (hs.live_of_ends hends hp)
  have hhistory : s.diagram.history? last = some port.history := by
    rw [Diagram.history?, hport, Option.map_some]
  have hsize := h last port.history hhistory
  rw [if_neg hother, Array.size_eq_zero_iff] at hsize
  exact Diagram.historyOf_eq_ok.mpr ⟨last, hlast, by rw [hhistory, hsize]⟩

/-- An output of the model shows the same in twins. -/
theorem Twins.historyOf (h : Twins s t) (hp : p ∈ s.diagram.portIds s.diagram.root .output)
    (hclosed : ∃ last, s.diagram.prevClosure p = .ok last) : ∃ history,
      s.diagram.historyOf p = .ok history ∧ t.diagram.historyOf p = .ok history := by
  obtain ⟨last, hlast⟩ := hclosed
  obtain ⟨⟨last', hlast'⟩, hsources⟩ := h.mirrors.alike.outputs p hp
  obtain ⟨hroot, _, hlive⟩ := Diagram.mem_portIds_iff.mp hp
  have hlive' : (t.diagram.port? p).isSome := by rwa [h.mirrors.alike.port?_isSome (.inl hroot)]
  cases hsource : s.diagram.source? p with
  | some source =>
      have harises := ((h.mirrors.first.source?_eq_some_iff hlive).mp hsource).2
      have hcomputed := h.mirrors.first.mem_computedPorts_iff.mpr harises
      obtain ⟨history, hhistory⟩ := Diagram.exists_history_of_computed hcomputed
      rw [hsource] at hsources
      exact ⟨history, Diagram.historyOf_eq_ok.mpr
          ⟨source, h.mirrors.first.prevClosure_of_source? hlive hsource, hhistory⟩,
        Diagram.historyOf_eq_ok.mpr ⟨source, h.mirrors.second.prevClosure_of_source? hlive' hsources,
          (h.mirrors.same source hcomputed).trans hhistory⟩⟩
  | none =>
      rw [hsource] at hsources
      exact ⟨#[], h.first.sized.historyOf_unsourced h.mirrors.first hlive hlast hsource,
        h.second.sized.historyOf_unsourced h.mirrors.second hlive' hlast' hsources⟩

/-- The name of an output stands for the same history in twins. -/
theorem Twins.signalHistory (h : Twins s t) (hp : p ∈ s.diagram.portIds s.diagram.root .output)
    (hclosed : ∀ p, (s.diagram.port? p).isSome → ∃ last, s.diagram.prevClosure p = .ok last)
    {name : String} (hname : (s.diagram.port? p).map Port.name = some name) : ∃ history,
      s.diagram.signalHistory name = .ok history ∧ t.diagram.signalHistory name = .ok history := by
  obtain ⟨b, c, hb, hc, hwork⟩ := h.mirrors.alike.work s.diagram.root (.inl rfl)
  obtain ⟨port, hport, rfl⟩ := Option.map_eq_some_iff.mp hname
  have hmem : port ∈ b.outputs := by
    obtain ⟨hroot, hside, _⟩ := Diagram.mem_portIds_iff.mp hp
    rw [← hroot] at hb
    rw [Diagram.port?_eq hb, hside] at hport
    exact List.mem_of_getElem? hport
  obtain ⟨index, hlt, hindex⟩ := Block.exists_outputIndex? hmem
  have hfound : s.diagram.findPort port.name = .ok (.output s.diagram.root index) :=
    Diagram.findPort_output hb hindex
  have hfound' : t.diagram.findPort port.name = .ok (.output s.diagram.root index) :=
    Diagram.findPort_output hc ((hwork.outputIndex? port.name).trans hindex)
  have hmem : PortId.output s.diagram.root index ∈ s.diagram.portIds s.diagram.root .output := by
    rw [Diagram.portIds_eq hb, Block.ports_output]
    exact List.mem_map_of_mem (List.mem_range.mpr hlt)
  obtain ⟨history, hfirst, hsecond⟩ :=
    h.historyOf hmem (hclosed _ (Diagram.mem_portIds_iff.mp hmem).2.2)
  exact ⟨history, Except.bind_eq_ok.mpr ⟨_, hfound, hfirst⟩,
    Except.bind_eq_ok.mpr ⟨_, hfound', hsecond⟩⟩

theorem Twins.showAlike {d : Diagram α} (h : Twins s t) (hshape : d.SameShape s.diagram)
    (hclosed : ∀ p, (d.port? p).isSome → ∃ last, d.prevClosure p = .ok last) :
    d.ShowAlike s.diagram t.diagram := by
  refine ⟨fun id hid p hp => ?_, fun p hp name hname => ?_⟩
  · have hcomputed : p ∈ s.diagram.computedPorts := by
      rw [hshape.computedPorts]
      exact List.mem_append_right _ (List.mem_flatMap.mpr ⟨id, hid, hp⟩)
    obtain ⟨history, hhistory⟩ := Diagram.exists_history_of_computed hcomputed
    exact ⟨history, hhistory, (h.mirrors.same p hcomputed).trans hhistory⟩
  · rw [← hshape.portIds] at hp
    rw [← hshape.portName?] at hname
    refine h.signalHistory hp (fun q hq => ?_) hname
    rw [hshape.port?_isSome] at hq
    rw [hshape.prevClosure]
    exact hclosed q hq

/-! ### Flattened models -/

variable [Scalar α]

/-- Where there is a clock, a run begins only if it is the only one. -/
theorem clock_of_begin (hs : s.Eventless) (hclock : s.diagram.HasClock) (h : begin s = .ok () s₁) :
    ∃ clock, s.diagram.clock = .ok clock := by
  obtain ⟨_, s₂, hreset, hprepare⟩ := EStateM.bind_eq_ok.mp h
  obtain ⟨_, hsame, _, hcleared, _, _⟩ := hs.reset_total
  cases hreset.symm.trans hsame
  have hsame : s₂.diagram.clock = s.diagram.clock := by
    rw [hcleared, Diagram.clock_clearSignals]
  obtain ⟨clock, _, hensure, _⟩ := prepare_rest hprepare
  obtain ⟨hfound, _⟩ | ⟨name, _, hmissing, _⟩ := ensureClock_cases hensure
  · exact ⟨clock, hsame ▸ hfound⟩
  · exact absurd (hsame ▸ hmissing) (hclock.clock_ne name)

/-- Where a number of steps can be run without events, it can be run with the flattened model as
well; every block computes the same, and so the outputs of the model show the same. -/
theorem runSteps_flattened (hbuilt : s.diagram.Built) (hclock : s.diagram.HasClock)
    (hclosed : ∀ p, (s.diagram.port? p).isSome → ∃ last, s.diagram.prevClosure p = .ok last)
    (hplain : s.diagram.PlainNames)
    (hacyclic : ∀ k < 2, ∀ g, s.diagram.dependencies k = .ok g → g.Acyclic)
    (hevents : s.events = []) (hstart : s.firstStart = none) {n : Nat}
    (hrun : runSteps n s = .ok () s₁) (keep : List String) :
    ∃ d', s.diagram.flattened keep = .ok d' ∧
      ∀ t : Simulation α ω, t.diagram = d' → SetUpLike s t →
        ∃ t₁, runSteps n t = .ok () t₁ ∧ s.diagram.ShowAlike s₁.diagram t₁.diagram := by
  have hs : s.Eventless :=
    ⟨hbuilt.wellFormed, hbuilt.ported, hbuilt.fitted, hevents, hstart⟩
  obtain ⟨d', hd', hflattened, hwellFormed, _⟩ := hs.wellFormed.flattened_ok hclosed hplain keep
  refine ⟨d', hd', fun t ht hsetup => ?_⟩
  subst ht
  have ht : t.Eventless := ⟨hwellFormed, hflattened.formal Block.ported_formal hs.ported,
    hflattened.formal Block.fitted_formal hs.fitted,
    hsetup.events.trans hevents, hsetup.start.trans hstart⟩
  have halways : ∀ k g, s.diagram.dependencies k = .ok g → g.Acyclic := by
    intro k g hg
    cases k with
    | zero => exact hacyclic 0 (by decide) g hg
    | succ k =>
        rw [Diagram.dependencies_succ] at hg
        exact hacyclic 1 (by decide) g hg
  obtain ⟨_, s₂, hbegin, hsteps⟩ := EStateM.bind_eq_ok.mp hrun
  obtain ⟨s₃, hsteps, hs₁⟩ := concluding_ok hsteps
  have hs₁ : s₁.diagram = s₃.diagram := by
    rw [hs₁]
    rfl
  obtain ⟨clock, hfound⟩ := clock_of_begin hs hclock hbegin
  have halike := hflattened.alike hs.wellFormed hwellFormed
  obtain ⟨hshape, t₂, hbegin', htwins⟩ := hs.begin_twins ht halike hsetup hfound halways hbegin
  obtain ⟨hshape', t₃, hsteps', htwins'⟩ := htwins.takeSteps hsteps
  refine ⟨t₃.dismiss, EStateM.bind_eq_ok.mpr ⟨(), t₂, hbegin', by rw [concluding, hsteps']⟩, ?_⟩
  rw [hs₁]
  exact htwins'.showAlike (hshape.trans hshape') hclosed

/-- A model whose output adds up its input: a block inside a box feeds itself through a delay. -/
def accumulatorCalls : List (DiagramCall ℚ) := [
  .addBlock ⟨0⟩ "clock" (.clock 0 1),
  .addComposite ⟨0⟩ "box" "Box" ["IN1"] ["OUT1"],
  .addBlock ⟨2⟩ "zero" (.constant 0),
  .addBlock ⟨2⟩ "last" .delay,
  .addBlock ⟨2⟩ "sum" (.adder 2),
  .connect ⟨2⟩ "zero" "last" none (some "IC"),
  .connect ⟨2⟩ "sum" "last" none (some "IN1"),
  .connect ⟨2⟩ "IN1" "sum" none none,
  .connect ⟨2⟩ "last" "sum" none none,
  .connect ⟨2⟩ "sum" "OUT1" none none,
  .connect ⟨0⟩ "X" "box" none none,
  .connect ⟨0⟩ "box" "Y" none none]

def accumulator : Editor ℚ :=
  Diagram.performAll { diagram := .empty "m" ["X"] ["Y"] } accumulatorCalls

theorem accumulator_built : accumulator.diagram.Built :=
  (Diagram.Built.empty "m" ["X"] ["Y"]).performAll
    (e := { diagram := .empty "m" ["X"] ["Y"] }) (by simp [accumulatorCalls, DiagramCall.Allowed])

/-- Within an iteration everything needs only what is named before it here. -/
theorem accumulator_acyclic :
    ∀ k < 2, ∀ g, accumulator.diagram.dependencies k = .ok g → g.Acyclic := by
  let order : List Node := [.port (.input ⟨0⟩ 0), .block ⟨1⟩, .block ⟨3⟩, .block ⟨4⟩, .block ⟨5⟩,
    .port (.output ⟨0⟩ 0)]
  have hranked : ∀ k < 2, ∀ g ∈ (accumulator.diagram.dependencies k).toOption,
      ∀ e ∈ g.entries, ∀ v ∈ e.influencers, order.idxOf v < order.idxOf e.node := by decide +kernel
  intro k hk g hg
  exact DependencyGraph.acyclic_of_rank order.idxOf (hranked k hk g (by rw [hg]; rfl))

/-- Three steps of that model, as it was made and flattened. -/
theorem runSteps_flattened_accumulator : ∃ s s₁ : Simulation ℚ Unit, runSteps 3 s = .ok () s₁ ∧
    (s₁.diagram.signalHistory "Y").toOption.map (fun h => h.toList.map Sample.value) = some [2, 4, 6] ∧
      ∃ d', s.diagram.flattened [] = .ok d' ∧ ∃ t t₁ : Simulation ℚ Unit, t.diagram = d' ∧
        runSteps 3 t = .ok () t₁ ∧ s.diagram.ShowAlike s₁.diagram t₁.diagram := by
  let s : Simulation ℚ Unit := { make accumulator Settings.standard () with inputs := [("X", 2)] }
  have hrun : runSteps 3 s = .ok () (runSteps 3 s).state := EStateM.Result.eq_ok (by decide +kernel)
  have hvalues : ((runSteps 3 s).state.diagram.signalHistory "Y").toOption.map
      (fun h => h.toList.map Sample.value) = some [2, 4, 6] := by decide +kernel
  have hbuilt : s.diagram.Built := accumulator_built
  have hoperator : (s.diagram.block? ⟨1⟩).map (fun b => b.operator.isClock) = some true := by
    decide +kernel
  obtain ⟨b, hb, hisClock⟩ := Option.map_eq_some_iff.mp hoperator
  have hclock : s.diagram.HasClock := ⟨⟨1⟩, by decide +kernel, b, hb, hisClock⟩
  have hclosed : ∀ p ∈ s.diagram.allPorts, (s.diagram.prevClosure p).toOption.isSome := by
    decide +kernel
  have hplain : ∀ b? ∈ s.diagram.blocks.toList, ∀ b ∈ b?, Plain b.name ∧
      ∀ p ∈ b.inputs ++ b.outputs, Plain p.name := by decide +kernel
  obtain ⟨d', hd', hruns⟩ := runSteps_flattened hbuilt hclock
    (Diagram.closed_of_allPorts hclosed) (.of_mem hplain) accumulator_acyclic rfl rfl hrun []
  let t : Simulation ℚ Unit := { s with editor := { s.editor with diagram := d' } }
  obtain ⟨t₁, ht₁, hsame⟩ := hruns t rfl ⟨rfl, rfl, rfl, rfl⟩
  exact ⟨s, _, hrun, hvalues, d', hd', t, t₁, rfl, ht₁, hsame⟩

end Simulation

end CausalBlocks
