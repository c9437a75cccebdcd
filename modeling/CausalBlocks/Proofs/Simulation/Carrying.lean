import CausalBlocks.Proofs.Diagram.Alike
import CausalBlocks.Proofs.Simulation.Failing
import CausalBlocks.Proofs.Simulation.Past

/-!
# What ports carry

A port shows the samples at the end of the links behind it, so both ends of a link carry the same.
At each iteration a block that is due carries what its operator makes of what its inputs carry,
whether it is computed alone or in a loop. There is one exception: a loop may have been solved with
a value for a block that was not due, and then the other blocks of the loop have read that value.
-/

namespace CausalBlocks

namespace Diagram

section Carries

variable {α : Type} {d : Diagram α} {id : BlockId} {p q : PortId} {i k : Nat} {value value' : α}

/-- The value that a port carries at an iteration, forwarded or its own. -/
def Carries (d : Diagram α) (p : PortId) (k : Nat) (value : α) : Prop :=
  ∃ (history : History α) (x : Sample α), d.historyOf p = .ok history ∧ history[k]? = some x ∧
    x.value = value

theorem carries_iff : d.Carries p k value ↔ ∃ source x, d.prevClosure p = .ok source ∧
    d.sample? source k = some x ∧ x.value = value := by
  simp only [Carries, historyOf_eq_ok, sample?, Option.bind_eq_some_iff]
  constructor
  · rintro ⟨history, x, ⟨source, hsource, hhistory⟩, hx, hvalue⟩
    exact ⟨source, x, hsource, ⟨history, hhistory, hx⟩, hvalue⟩
  · rintro ⟨source, x, hsource, ⟨history, hhistory, hx⟩, hvalue⟩
    exact ⟨history, x, ⟨source, hsource, hhistory⟩, hx, hvalue⟩

theorem carries_iff_value : d.Carries p k value ↔
    ((d.historyOf p).toOption.bind fun history => history[k]?).map Sample.value = some value := by
  simp only [Option.map_eq_some_iff, Option.bind_eq_some_iff]
  constructor
  · rintro ⟨history, x, hhistory, hx, hvalue⟩
    exact ⟨x, ⟨history, by rw [hhistory]; rfl, hx⟩, hvalue⟩
  · rintro ⟨x, ⟨history, hhistory, hx⟩, hvalue⟩
    exact ⟨history, x, Except.eq_ok_of_toOption hhistory, hx, hvalue⟩

instance [DecidableEq α] : Decidable (d.Carries p k value) :=
  decidable_of_iff _ carries_iff_value.symm

theorem Carries.unique (h : d.Carries p k value) (h' : d.Carries p k value') : value = value' := by
  obtain ⟨_, x, hhistory, hx, rfl⟩ := h
  obtain ⟨_, x', hsame, hx', rfl⟩ := h'
  cases hhistory.symm.trans hsame
  cases hx.symm.trans hx'
  rfl

theorem prevClosure_of_driverOf {driver : PortId} (h : d.driverOf p = .ok driver) :
    d.prevClosure p = .ok driver := by
  obtain ⟨source, hsource, h⟩ := Except.bind_eq_ok.mp h
  split at h
  next =>
    cases h
    exact hsource
  next =>
    obtain ⟨_, _, hthrow⟩ := Except.bind_eq_ok.mp h
    cases hthrow

/-- What is read at an input is what the input carries. -/
theorem carries_of_readerOf {port : Nat} (h : Simulation.readerOf d id port k = .ok value) :
    d.Carries (.input id port) k value := by
  obtain ⟨driver, x, hdriver, hx, hvalue⟩ := readerOf_eq_ok.mp h
  exact carries_iff.mpr ⟨driver, x, prevClosure_of_driverOf hdriver, hx, hvalue⟩

section Primitive

variable {b : Block α} (hb : d.block? id = some b) (hprimitive : b.isComposite = false)
include hb hprimitive

/-- An output of a primitive shows its own samples. -/
theorem prevClosure_output : d.prevClosure (.output id i) = .ok (.output id i) := by
  refine driverFrom_end List.not_mem_nil ?_
  change (d.block id).map (fun b => !b.isComposite) = .ok true
  rw [block_eq hb, Except.map, hprimitive]
  rfl

theorem carries_output {x : Sample α} (hx : d.sample? (.output id i) k = some x) :
    d.Carries (.output id i) k x.value :=
  carries_iff.mpr ⟨_, x, prevClosure_output hb hprimitive, hx, rfl⟩

end Primitive

namespace WellFormed

variable (h : d.WellFormed)
include h

/-- Behind both ends of a link there is the same port. -/
theorem prevClosure_of_incoming (hpq : d.incoming q = some p) {last : PortId} :
    d.prevClosure q = .ok last ↔ d.prevClosure p = .ok last := by
  obtain ⟨hp, hq⟩ := h.live_of_incoming hpq
  rw [h.prevClosure_eq_ok_iff hp, h.prevClosure_eq_ok_iff hq]
  constructor
  · intro hends
    cases hends with
    | here hnone => cases hnone.symm.trans hpq
    | back hsource hrest =>
        cases hsource.symm.trans hpq
        exact hrest
  · exact .back hpq

theorem carries_of_incoming (hpq : d.incoming q = some p) :
    d.Carries q k value ↔ d.Carries p k value := by
  simp only [carries_iff, h.prevClosure_of_incoming hpq]

end WellFormed

end Carries

variable {d : Diagram ℚ} {tick : Tick ℚ} {id : BlockId} {b : Block ℚ} {p q : PortId} {i k : Nat}
  {value : ℚ}

/-- What a loop was solved with at a port where the driver carries something else: the driver is a
block of the loop that is not due, so it repeats its last sample. -/
def Withheld (d : Diagram ℚ) (tick : Tick ℚ) (p : PortId) (value : ℚ) : Prop :=
  ∃ g ids values driver b, d.dependencies tick.iteration = .ok g ∧ .cycle ids ∈ g.schedule ∧
    d.LoopSettled tick ids values ∧ d.prevClosure p = .ok driver ∧
      (driver.block, value) ∈ ids.zip values ∧ d.block? driver.block = some b ∧
        mustCompute b.rate tick.iteration tick.time = false

/-- What is read at a port at an iteration, while a tick is computed. -/
def Fed (d : Diagram ℚ) (tick : Tick ℚ) (p : PortId) (k : Nat) (value : ℚ) : Prop :=
  d.Carries p k value ∨ k = tick.iteration ∧ d.Withheld tick p value

theorem WellFormed.fed_of_incoming (h : d.WellFormed) (hpq : d.incoming q = some p) :
    d.Fed tick q k value ↔ d.Fed tick p k value := by
  simp only [Fed, Withheld, h.carries_of_incoming hpq, h.prevClosure_of_incoming hpq]

/-- At the first iteration every block is due. -/
theorem Fed.carries_of_first (h : d.Fed tick p k value) (hfirst : tick.iteration = 0) :
    d.Carries p k value := by
  refine h.resolve_right fun ⟨_, _, _, _, _, _, _, _, _, _, _, _, hidle⟩ => ?_
  rw [hfirst, mustCompute_zero] at hidle
  cases hidle

/-- What was read of an earlier iteration is what there is. -/
theorem Fed.carries_of_lt (h : d.Fed tick p k value) (hlt : k < tick.iteration) :
    d.Carries p k value :=
  h.resolve_right fun ⟨hk, _⟩ => Nat.ne_of_lt hlt hk

/-- A block that is due carries what others read of it. -/
theorem Fed.carries_of_due (h : d.Fed tick (.output id i) k value) (hb : d.block? id = some b)
    (hprimitive : b.isComposite = false)
    (hdue : mustCompute b.rate tick.iteration tick.time = true) :
    d.Carries (.output id i) k value := by
  refine h.resolve_right fun ⟨_, _, _, _, driver, _, _, _, _, hdriver, _, hb', hidle⟩ => ?_
  cases hdriver.symm.trans (prevClosure_output hb hprimitive)
  cases hb.symm.trans hb'
  exact Bool.false_ne_true (hidle.symm.trans hdue)

/-- What a block of a loop reads when the loop is solved. -/
theorem WellFormed.fed_of_loopReader (hd : d.WellFormed) {g : DependencyGraph} {ids : List BlockId}
    {values : List ℚ} {port : Nat} (h : d.LoopSettled tick ids values) (hg : d.dependencies tick.iteration = .ok g)
    (hloop : .cycle ids ∈ g.schedule)
    (hread : d.loopReader (ids.zip values) tick.iteration id port k = .ok value) :
    d.Fed tick (.input id port) k value := by
  obtain ⟨driver, hdriver, hread'⟩ := Except.bind_eq_ok.mp hread
  have hclosure := prevClosure_of_driverOf hdriver
  split at hread'
  next found hfound =>
    cases hread'
    split at hfound
    next hnow =>
      obtain ⟨hside, rfl⟩ := hnow
      -- a block of the loop drives the input, and what was found for it is read
      obtain ⟨before, after, hzip, _⟩ := List.lookup_eq_some_iff.mp hfound
      have hmem : (driver.block, value) ∈ ids.zip values := by simp [hzip]
      obtain ⟨b, hb, _⟩ := h.solves.2 driver.block value hmem
      cases hdue : mustCompute b.rate tick.iteration tick.time with
      | true =>
          obtain ⟨_, _, hlive, _⟩ := hd.source_of_driverOf rfl hdriver
          have hport : driver ∈ d.portIds driver.block .output :=
            mem_portIds_iff.mpr ⟨rfl, hside, hlive⟩
          rw [h.ports driver.block (List.of_mem_zip hmem).1, List.mem_singleton] at hport
          have hsample := h.due driver.block value b hmem hb hdue
          rw [← hport] at hsample
          exact .inl (carries_iff.mpr ⟨driver, _, hclosure, hsample, rfl⟩)
      | false =>
          exact .inr ⟨rfl, g, ids, values, driver, b, hg, hloop, h, hclosure, hmem, hb, hdue⟩
    next => cases hfound
  next =>
    obtain ⟨x, hx, hvalue⟩ := Except.bind_eq_ok.mp hread'
    cases hvalue
    obtain ⟨driver', history, hdriver', hhistory, hx⟩ := inputSample_eq_ok.mp hx
    cases hdriver.symm.trans hdriver'
    refine .inl (carries_iff.mpr ⟨driver, x, hclosure, ?_, rfl⟩)
    rw [sample?, hhistory, Option.bind_some, hx]

/-- A block that is due carries what its operator makes of what it reads. -/
theorem Past.computes (hpast : d.Past tick) (h : d.WellFormed) (hported : d.Ported)
    (hb : d.block? id = some b) (hprimitive : b.isComposite = false)
    (hdue : mustCompute b.rate tick.iteration tick.time = true) :
    ∃ (read : Reader ℚ) (values : List ℚ),
      b.operator.compute (d.pathOf id) tick read = .ok values ∧
        (∀ (i : Nat) value, values[i]? = some value →
          d.Carries (.output id i) tick.iteration value) ∧
        ∀ port k value, read port k = .ok value → d.Fed tick (.input id port) k value := by
  obtain ⟨g, hobeyed⟩ := hpast.obeyed
  have hid : id ∈ d.primitives :=
    h.mem_primitives_iff.mpr ⟨Option.isSome_of_mem hb, by rw [isComposite, hb]; exact hprimitive⟩
  by_cases hcycle : ∃ ids, .cycle ids ∈ g.schedule ∧ id ∈ ids
  · obtain ⟨ids, hloop, hmem⟩ := hcycle
    obtain ⟨values, hsettled⟩ := hobeyed.loops hported ids hloop
    obtain ⟨found, hfound⟩ := hsettled.exists_found hmem
    obtain ⟨b', hb', hcompute⟩ := hsettled.solves.2 id found hfound
    cases hb.symm.trans hb'
    refine ⟨_, [found], hcompute, fun i value hvalue => ?_, fun port k value =>
      h.fed_of_loopReader hsettled hobeyed.dependencies hloop⟩
    rw [List.getElem?_singleton] at hvalue
    split at hvalue
    next hi =>
      cases hvalue
      rw [hi]
      exact carries_output hb hprimitive (hsettled.due id found b hfound hb hdue)
    next => cases hvalue
  · obtain ⟨b', hb', hsatisfies⟩ := hobeyed.equations id hid fun ids hloop hmem =>
      hcycle ⟨ids, hloop, hmem⟩
    cases hb.symm.trans hb'
    obtain ⟨values, hcompute, _, hsamples⟩ := hsatisfies.due hdue
    exact ⟨_, values, hcompute, fun i value hvalue => carries_output hb hprimitive (hsamples i value hvalue),
      fun port k value hread => .inl (carries_of_readerOf hread)⟩

end Diagram

end CausalBlocks
