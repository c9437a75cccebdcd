import CausalBlocks.Proofs.Diagram.Blueprint
import CausalBlocks.Proofs.Simulation.Carrying
import CausalBlocks.Proofs.Simulation.Scheduling

/-!
# Integrators and derivators

An integrator starts at its initial condition and adds, at each iteration, what its input carried
at the iteration before times the step since then. A derivator starts at its initial condition and
then gives the difference of what it is fed over the step. It is fed what its input carries,
unless the driver of the input is in a loop with it and not due: then it is fed the value with which the
loop was solved, although the input carries the last sample of the driver again.
-/

namespace CausalBlocks

/-! ### What some operators compute -/

namespace Operator

variable {block : String} {tick : Tick ℚ} {read : Reader ℚ} {values : List ℚ}

theorem mapM_range_two {f : Nat → Except (Failure ℚ) ℚ}
    (h : (List.range 2).mapM f = .ok values) :
    ∃ x y, f 0 = .ok x ∧ f 1 = .ok y ∧ values = [x, y] := by
  simp only [show List.range 2 = [0, 1] from rfl, List.mapM_cons, List.mapM_nil,
    Except.bind_eq_ok] at h
  obtain ⟨x, hx, _, ⟨y, hy, _, ⟨⟩, ⟨⟩⟩, ⟨⟩⟩ := h
  exact ⟨x, y, hx, hy, rfl⟩

theorem compute_adder_two (h : (adder 2).compute block tick read = .ok values) : ∃ x y,
    read 0 tick.iteration = .ok x ∧ read 1 tick.iteration = .ok y ∧ values = [x + y] := by
  obtain ⟨inputs, hinputs, h⟩ := Except.bind_eq_ok.mp h
  obtain ⟨x, y, hx, hy, rfl⟩ := mapM_range_two hinputs
  cases h
  refine ⟨x, y, hx, hy, ?_⟩
  change [-0 + x + y] = _
  rw [neg_zero, zero_add]

theorem compute_product_two (h : (product 2).compute block tick read = .ok values) : ∃ x y,
    read 0 tick.iteration = .ok x ∧ read 1 tick.iteration = .ok y ∧ values = [x * y] := by
  obtain ⟨inputs, hinputs, h⟩ := Except.bind_eq_ok.mp h
  obtain ⟨x, y, hx, hy, rfl⟩ := mapM_range_two hinputs
  cases h
  refine ⟨x, y, hx, hy, ?_⟩
  change [1 * x * y] = _
  rw [one_mul]

theorem compute_negator (h : negator.compute block tick read = .ok values) : ∃ x,
    read 0 tick.iteration = .ok x ∧ values = [-x] := by
  obtain ⟨x, hx, h⟩ := Except.bind_eq_ok.mp h
  cases h
  exact ⟨x, hx, rfl⟩

theorem compute_inverter {tolerance : ℚ}
    (h : (inverter tolerance).compute block tick read = .ok values) : ∃ x,
    read 0 tick.iteration = .ok x ∧ values = [1 / x] := by
  obtain ⟨x, hx, h⟩ := Except.bind_eq_ok.mp h
  obtain ⟨y, hy, h⟩ := Except.bind_eq_ok.mp h
  cases h
  rw [invert] at hy
  split at hy
  next => cases hy
  next =>
    cases hy
    exact ⟨x, hx, rfl⟩

theorem compute_delay (h : delay.compute block tick read = .ok values) : ∃ x,
    (if tick.iteration = 0 then read 1 0 else read 0 (tick.iteration - 1)) = .ok x ∧
      values = [x] := by
  obtain ⟨x, hx, h⟩ := Except.bind_eq_ok.mp h
  cases h
  exact ⟨x, hx, rfl⟩

theorem compute_step {least : ℚ} (h : (step least).compute block tick read = .ok values) :
    values = [max tick.step least] := by
  cases h
  have hnumber : Scalar.isNumber least = true := beq_self_eq_true least
  rw [Scalar.greater, hnumber]
  split
  next h => rw [max_eq_left (le_of_lt h)]
  next h => rw [max_eq_right (not_lt.mp h), if_pos rfl]

end Operator

/-! ### Composites at work -/

/-- The blocks of a blueprint are primitives, and the wires start at its inputs and at its blocks. -/
structure Blueprint.Shallow {α : Type} (bp : Blueprint α) (wires : List Wire) : Prop where
  blocks : ∀ block ∈ bp.blocks, block.2.isComposite = false
  sources : ∀ wire ∈ wires, ∀ place port, wire.1 = .inner place port → place < bp.blocks.length

namespace Diagram

/-- A composite that was filled by a blueprint, at a tick of a run. -/
structure Works (d : Diagram ℚ) (tick : Tick ℚ) (id : BlockId) (bp : Blueprint ℚ)
    (wires : List Wire) : Prop where
  wellFormed : d.WellFormed
  ported : d.Ported
  filled : d.Filled id bp wires
  shallow : bp.Shallow wires
  past : d.Past tick

/-- What a spot brings at an iteration: what is fed from outside, or what a block inside carries. -/
def Brings (d : Diagram ℚ) (tick : Tick ℚ) (id : BlockId) : Spot → Nat → ℚ → Prop
  | .own port, k, value => d.Fed tick (.input id port) k value
  | .inner place port, k, value => d.Carries (.output (id.inside place) port) k value

namespace Works

variable {d : Diagram ℚ} {tick : Tick ℚ} {id : BlockId} {bp : Blueprint ℚ} {wires : List Wire}
  {name : String} (h : d.Works tick id bp wires) (place : Nat)
include h

omit place in
/-- What a block inside is fed is what the spot brings from which its wire comes. -/
theorem brings_of_fed {place port k : Nat} {source : Spot} {value : ℚ}
    (hsource : driver? wires (.inner place port) = some source)
    (hfed : d.Fed tick (.input (id.inside place) port) k value) : d.Brings tick id source k value := by
  have hlink : d.incoming (.input (id.inside place) port) = some (source.source id) :=
    h.filled.wires (.inner place port) source hsource
  rw [h.wellFormed.fed_of_incoming hlink] at hfed
  cases source with
  | own port => exact hfed
  | inner place' port' =>
      obtain ⟨wire, hwire, hfirst⟩ := Option.map_eq_some_iff.mp hsource
      have hplace := h.shallow.sources wire (List.mem_of_find?_eq_some hwire) place' port' hfirst
      have hblock := List.getElem?_eq_getElem hplace
      obtain ⟨b, hb, hoperator, hrate⟩ := h.filled.blocks place' _ _ hblock
      refine hfed.carries_of_due hb ?_ (by rw [hrate]; rfl)
      rw [Block.isComposite, hoperator]
      exact h.shallow.blocks _ (List.getElem_mem hplace)

/-- A block inside carries what its operator makes of what its wires bring. -/
theorem computes {op : Operator ℚ} (hplace : bp.blocks[place]? = some (name, op)) :
    ∃ (read : Reader ℚ) (values : List ℚ),
      op.compute (d.pathOf (id.inside place)) tick read = .ok values ∧
        (∀ value, values[0]? = some value →
          d.Brings tick id (.inner place 0) tick.iteration value) ∧
        ∀ port source k value, driver? wires (.inner place port) = some source →
          read port k = .ok value → d.Brings tick id source k value := by
  obtain ⟨b, hb, hoperator, hrate⟩ := h.filled.blocks place name op hplace
  have hprimitive : b.isComposite = false := by
    rw [Block.isComposite, hoperator]
    exact h.shallow.blocks (name, op) (List.mem_of_getElem? hplace)
  obtain ⟨read, values, hcompute, houtputs, hreads⟩ :=
    h.past.computes h.wellFormed h.ported hb hprimitive (by rw [hrate]; rfl)
  rw [hoperator] at hcompute
  exact ⟨read, values, hcompute, houtputs 0, fun port source k value hsource hread =>
    h.brings_of_fed hsource (hreads port k value hread)⟩

variable {p q : Spot}

theorem adds (hplace : bp.blocks[place]? = some (name, .adder 2))
    (hfirst : driver? wires (.inner place 0) = some p)
    (hsecond : driver? wires (.inner place 1) = some q) : ∃ x y,
    d.Brings tick id p tick.iteration x ∧ d.Brings tick id q tick.iteration y ∧
      d.Brings tick id (.inner place 0) tick.iteration (x + y) := by
  obtain ⟨read, values, hcompute, houtput, hreads⟩ := h.computes place hplace
  obtain ⟨x, y, hx, hy, rfl⟩ := Operator.compute_adder_two hcompute
  exact ⟨x, y, hreads 0 p _ x hfirst hx, hreads 1 q _ y hsecond hy, houtput _ rfl⟩

theorem multiplies (hplace : bp.blocks[place]? = some (name, .product 2))
    (hfirst : driver? wires (.inner place 0) = some p)
    (hsecond : driver? wires (.inner place 1) = some q) : ∃ x y,
    d.Brings tick id p tick.iteration x ∧ d.Brings tick id q tick.iteration y ∧
      d.Brings tick id (.inner place 0) tick.iteration (x * y) := by
  obtain ⟨read, values, hcompute, houtput, hreads⟩ := h.computes place hplace
  obtain ⟨x, y, hx, hy, rfl⟩ := Operator.compute_product_two hcompute
  exact ⟨x, y, hreads 0 p _ x hfirst hx, hreads 1 q _ y hsecond hy, houtput _ rfl⟩

theorem negates (hplace : bp.blocks[place]? = some (name, .negator))
    (hsource : driver? wires (.inner place 0) = some p) : ∃ x,
    d.Brings tick id p tick.iteration x ∧ d.Brings tick id (.inner place 0) tick.iteration (-x) := by
  obtain ⟨read, values, hcompute, houtput, hreads⟩ := h.computes place hplace
  obtain ⟨x, hx, rfl⟩ := Operator.compute_negator hcompute
  exact ⟨x, hreads 0 p _ x hsource hx, houtput _ rfl⟩

theorem inverts {tolerance : ℚ} (hplace : bp.blocks[place]? = some (name, .inverter tolerance))
    (hsource : driver? wires (.inner place 0) = some p) : ∃ x,
    d.Brings tick id p tick.iteration x ∧
      d.Brings tick id (.inner place 0) tick.iteration (1 / x) := by
  obtain ⟨read, values, hcompute, houtput, hreads⟩ := h.computes place hplace
  obtain ⟨x, hx, rfl⟩ := Operator.compute_inverter hcompute
  exact ⟨x, hreads 0 p _ x hsource hx, houtput _ rfl⟩

theorem counts {least : ℚ} (hplace : bp.blocks[place]? = some (name, .step least)) :
    d.Brings tick id (.inner place 0) tick.iteration (max tick.step least) := by
  obtain ⟨read, values, hcompute, houtput, _⟩ := h.computes place hplace
  rw [Operator.compute_step hcompute] at houtput
  exact houtput _ rfl

theorem gives {value : ℚ} (hplace : bp.blocks[place]? = some (name, .constant value)) :
    d.Brings tick id (.inner place 0) tick.iteration value := by
  obtain ⟨read, values, hcompute, houtput, _⟩ := h.computes place hplace
  cases hcompute
  exact houtput _ rfl

/-- A delay starts with its initial condition. -/
theorem delays_first (hplace : bp.blocks[place]? = some (name, .delay))
    (hsource : driver? wires (.inner place 1) = some p) (hzero : tick.iteration = 0) : ∃ x,
    d.Brings tick id p 0 x ∧ d.Brings tick id (.inner place 0) 0 x := by
  obtain ⟨read, values, hcompute, houtput, hreads⟩ := h.computes place hplace
  obtain ⟨x, hx, rfl⟩ := Operator.compute_delay hcompute
  rw [if_pos hzero] at hx
  rw [hzero] at houtput
  exact ⟨x, hreads 1 p 0 x hsource hx, houtput x rfl⟩

/-- Then a delay repeats what came an iteration ago. -/
theorem delays_next {k : Nat} (hplace : bp.blocks[place]? = some (name, .delay))
    (hsource : driver? wires (.inner place 0) = some p) (hk : tick.iteration = k + 1) : ∃ x,
    d.Brings tick id p k x ∧ d.Brings tick id (.inner place 0) (k + 1) x := by
  obtain ⟨read, values, hcompute, houtput, hreads⟩ := h.computes place hplace
  obtain ⟨x, hx, rfl⟩ := Operator.compute_delay hcompute
  rw [hk, if_neg (Nat.succ_ne_zero k), Nat.add_sub_cancel] at hx
  rw [hk] at houtput
  exact ⟨x, hreads 0 p k x hsource hx, houtput x rfl⟩

omit place in
/-- An output of the composite carries what its wire brings. -/
theorem carries_own {port place index k : Nat} {value : ℚ}
    (hsource : driver? wires (.own port) = some (.inner place index)) :
    d.Carries (.output id port) k value ↔ d.Brings tick id (.inner place index) k value :=
  h.wellFormed.carries_of_incoming (h.filled.wires (.own port) (.inner place index) hsource)

end Works

end Diagram

/-! ### Integrators -/

/-- What an integrator is made of. -/
def integratorBlueprint : Blueprint ℚ where
  inputs := ["IN1", initialCondition]
  outputs := [defaultOutput]
  blocks := [("zero", .constant 0), ("delta_t", .step leastStep), ("delayIn", .delay),
    ("multDelta", .product 2), ("delayState", .delay), ("sumState", .adder 2)]

def integratorWires : List Wire :=
  [(.inner 0 0, .inner 2 1), (.own 0, .inner 2 0), (.inner 2 0, .inner 3 0),
    (.inner 1 0, .inner 3 1), (.inner 3 0, .inner 5 0), (.own 1, .inner 4 1),
    (.inner 4 0, .inner 5 1), (.inner 5 0, .inner 4 0), (.inner 5 0, .own 0)]

theorem integrator_shallow : integratorBlueprint.Shallow integratorWires where
  blocks := by simp [integratorBlueprint, Operator.isComposite]
  sources := by simp [integratorWires, integratorBlueprint]

theorem addIntegrator_laid {e e' : Editor ℚ} {parent id : BlockId} {name : String}
    (h : Edit.addIntegrator parent name e = .ok id e') :
    e'.diagram.Laid id integratorBlueprint integratorWires :=
  Edit.filled_laid (by simp [integratorBlueprint]) rfl h

namespace Diagram

namespace Works

variable {d : Diagram ℚ} {tick : Tick ℚ} {id : BlockId} {k : Nat}

/-- An integrator starts at its initial condition. -/
theorem integrates_first (h : d.Works tick id integratorBlueprint integratorWires)
    (hzero : tick.iteration = 0) :
    ∃ x, d.Carries (.input id 1) 0 x ∧ d.Carries (.output id 0) 0 x := by
  obtain ⟨x, state, hx, hstate, hsum⟩ := h.adds 5 rfl rfl rfl
  obtain ⟨slope, step, hslope, _, hproduct⟩ := h.multiplies 3 rfl rfl rfl
  obtain ⟨first, hfirst, hdelayed⟩ := h.delays_first 2 rfl rfl hzero
  obtain ⟨initial, hinitial, hheld⟩ := h.delays_first 4 rfl rfl hzero
  have hnull := h.gives 0 rfl
  rw [hzero] at hx hstate hsum hslope hproduct hnull
  -- the slope is delayed, and starts at zero
  obtain rfl : first = 0 := hfirst.unique hnull
  obtain rfl : slope = 0 := hslope.unique hdelayed
  obtain rfl : x = 0 * step := hx.unique hproduct
  obtain rfl : state = initial := hstate.unique hheld
  rw [zero_mul, zero_add] at hsum
  exact ⟨state, hinitial.carries_of_first hzero, (h.carries_own rfl).mpr hsum⟩

/-- Then it adds what its input carried before, times the step since. -/
theorem integrates_next (h : d.Works tick id integratorBlueprint integratorWires)
    (hk : tick.iteration = k + 1) : ∃ last slope, d.Carries (.output id 0) k last ∧
      d.Carries (.input id 0) k slope ∧
        d.Carries (.output id 0) (k + 1) (last + slope * max tick.step leastStep) := by
  obtain ⟨x, state, hx, hstate, hsum⟩ := h.adds 5 rfl rfl rfl
  obtain ⟨slope, step, hslope, hstep, hproduct⟩ := h.multiplies 3 rfl rfl rfl
  obtain ⟨before, hbefore, hdelayed⟩ := h.delays_next 2 rfl rfl hk
  obtain ⟨last, hlast, hheld⟩ := h.delays_next 4 rfl rfl hk
  have hcounted := h.counts 1 rfl
  rw [hk] at hx hstate hsum hslope hstep hproduct hcounted
  obtain rfl : slope = before := hslope.unique hdelayed
  obtain rfl : step = max tick.step leastStep := hstep.unique hcounted
  obtain rfl : x = _ := hx.unique hproduct
  obtain rfl : state = last := hstate.unique hheld
  rw [add_comm (slope * _)] at hsum
  exact ⟨state, slope, (h.carries_own rfl).mpr hlast, hbefore.carries_of_lt (by omega),
    (h.carries_own rfl).mpr hsum⟩

end Works

end Diagram

/-! ### Derivators -/

/-- What a derivator is made of. -/
def derivatorBlueprint : Blueprint ℚ where
  inputs := ["IN1", initialCondition]
  outputs := [defaultOutput]
  blocks := [("delta_t", .step leastStep), ("multIc", .product 2), ("neg1", .negator),
    ("sum1", .adder 2), ("delay", .delay), ("neg2", .negator), ("sum2", .adder 2),
    ("mult", .product 2), ("inv", .inverter invertTolerance)]

def derivatorWires : List Wire :=
  [(.own 1, .inner 1 0), (.inner 0 0, .inner 1 1), (.inner 1 0, .inner 2 0),
    (.inner 2 0, .inner 3 0), (.own 0, .inner 3 1), (.inner 3 0, .inner 4 1),
    (.own 0, .inner 4 0), (.inner 4 0, .inner 5 0), (.inner 5 0, .inner 6 0),
    (.own 0, .inner 6 1), (.inner 6 0, .inner 7 0), (.inner 0 0, .inner 8 0),
    (.inner 8 0, .inner 7 1), (.inner 7 0, .own 0)]

theorem derivator_shallow : derivatorBlueprint.Shallow derivatorWires where
  blocks := by simp [derivatorBlueprint, Operator.isComposite]
  sources := by simp [derivatorWires, derivatorBlueprint]

theorem addDerivator_laid {e e' : Editor ℚ} {parent id : BlockId} {name : String}
    (h : Edit.addDerivator parent name e = .ok id e') :
    e'.diagram.Laid id derivatorBlueprint derivatorWires :=
  Edit.filled_laid (by simp [derivatorBlueprint]) rfl h

namespace Diagram

namespace Works

variable {d : Diagram ℚ} {tick : Tick ℚ} {id : BlockId} {k : Nat}

/-- A derivator gives the difference of its delayed input and what it is fed over the step. -/
theorem differs (h : d.Works tick id derivatorBlueprint derivatorWires) : ∃ delayed fed,
    d.Brings tick id (.inner 4 0) tick.iteration delayed ∧
      d.Fed tick (.input id 0) tick.iteration fed ∧
        d.Carries (.output id 0) tick.iteration ((fed - delayed) / max tick.step leastStep) := by
  obtain ⟨difference, factor, hdifference, hfactor, hproduct⟩ := h.multiplies 7 rfl rfl rfl
  obtain ⟨x, fed, hx, hfed, hsum⟩ := h.adds 6 rfl rfl rfl
  obtain ⟨delayed, hdelayed, hnegated⟩ := h.negates 5 rfl rfl
  obtain ⟨step, hstep, hinverted⟩ := h.inverts 8 rfl rfl
  have hcounted := h.counts 0 rfl
  obtain rfl : difference = x + fed := hdifference.unique hsum
  obtain rfl : x = -delayed := hx.unique hnegated
  obtain rfl : factor = 1 / step := hfactor.unique hinverted
  obtain rfl : step = max tick.step leastStep := hstep.unique hcounted
  rw [neg_add_eq_sub, mul_one_div] at hproduct
  exact ⟨delayed, fed, hdelayed, hfed, (h.carries_own rfl).mpr hproduct⟩

/-- A derivator starts at its initial condition. -/
theorem derives_first (h : d.Works tick id derivatorBlueprint derivatorWires)
    (hzero : tick.iteration = 0) :
    ∃ x, d.Carries (.input id 1) 0 x ∧ d.Carries (.output id 0) 0 x := by
  obtain ⟨delayed, fed, hdelayed, hfed, houtput⟩ := h.differs
  obtain ⟨before, hbefore, hfirst⟩ := h.delays_first 4 rfl rfl hzero
  obtain ⟨x, fed', hx, hfed', hsum⟩ := h.adds 3 rfl rfl rfl
  obtain ⟨product, hproduct, hnegated⟩ := h.negates 2 rfl rfl
  obtain ⟨initial, step, hinitial, hstep, hmultiplied⟩ := h.multiplies 1 rfl rfl rfl
  have hcounted := h.counts 0 rfl
  rw [hzero] at hdelayed hfed houtput hx hfed' hsum hproduct hnegated hinitial hstep hmultiplied
  rw [hzero] at hcounted
  obtain rfl : delayed = before := hdelayed.unique hfirst
  obtain rfl : delayed = x + fed' := hbefore.unique hsum
  obtain rfl : fed' = fed := (hfed'.carries_of_first hzero).unique (hfed.carries_of_first hzero)
  obtain rfl : x = -product := hx.unique hnegated
  obtain rfl : product = initial * step := hproduct.unique hmultiplied
  obtain rfl : step = max tick.step leastStep := hstep.unique hcounted
  have hpositive : max tick.step leastStep ≠ (0 : ℚ) :=
    ne_of_gt (lt_max_of_lt_right (by norm_num [leastStep]))
  refine ⟨initial, hinitial.carries_of_first hzero, ?_⟩
  rwa [sub_add_cancel_right, neg_neg, mul_div_cancel_right₀ _ hpositive] at houtput

/-- Then it gives the difference of what it is fed and what its input carried before, over the
step. -/
theorem derives_next (h : d.Works tick id derivatorBlueprint derivatorWires)
    (hk : tick.iteration = k + 1) : ∃ before fed, d.Carries (.input id 0) k before ∧
      d.Fed tick (.input id 0) (k + 1) fed ∧
        d.Carries (.output id 0) (k + 1) ((fed - before) / max tick.step leastStep) := by
  obtain ⟨delayed, fed, hdelayed, hfed, houtput⟩ := h.differs
  obtain ⟨before, hbefore, hlater⟩ := h.delays_next 4 rfl rfl hk
  rw [hk] at hdelayed hfed houtput
  obtain rfl : delayed = before := hdelayed.unique hlater
  exact ⟨delayed, fed, hbefore.carries_of_lt (by omega), hfed, houtput⟩

end Works

end Diagram

/-! ### Along a run -/

namespace Diagram

variable {d : Diagram ℚ} {tick : Tick ℚ} {id : BlockId}
  {make : BlockId → String → Edit ℚ BlockId}

/-- A composite that was made once in some diagram, is intact, and has no rates inside. -/
structure Holds (d : Diagram ℚ) (make : BlockId → String → Edit ℚ BlockId) (id : BlockId) : Prop where
  made : ∃ parent name e e', make parent name e = .ok id e' ∧ e'.diagram.Intact d id
  unrated : d.Unrated id

/-- What was made is held while blocks and links are added and samples are taken. -/
theorem Holds.of_calls {parent : BlockId} {name : String} {e e' : Editor ℚ}
    {calls : List (DiagramCall ℚ)} (hmade : make parent name e = .ok id e')
    (hadding : ∀ call ∈ calls, call.Adding) (hshape : (performAll e' calls).diagram.SameShape d)
    (hunrated : (performAll e' calls).diagram.Unrated id) : d.Holds make id where
  made := by
    refine ⟨parent, name, e, e', hmade, Intact.sameShape ?_ hshape⟩
    exact DiagramCall.performAll_keeps (Intact.keptByAdding e'.diagram id) hadding (.refl _ _)
  unrated := hunrated.sameShape hshape

theorem Holds.works {bp : Blueprint ℚ} {wires : List Wire} (h : d.Holds make id)
    (hlaid : ∀ e e' parent id name, make parent name e = .ok id e' → e'.diagram.Laid id bp wires)
    (hshallow : bp.Shallow wires) (hd : d.WellFormed) (hported : d.Ported) (hpast : d.Past tick) :
    d.Works tick id bp wires := by
  obtain ⟨parent, name, e, e', hmade, hintact⟩ := h.made
  exact ⟨hd, hported, (hlaid e e' parent id name hmade).filled hintact h.unrated, hshallow, hpast⟩

end Diagram

namespace Simulation

open Diagram

variable {ω : Type} {s : Simulation ℚ ω}

/-- In exact arithmetic, while no event fires, an integrator and a derivator start at their initial
conditions. An integrator then adds what its input carried before times the step since, or the
least step if that is more. A derivator gives the difference of what it is fed and what its input
carried before, over that step. It is fed what its input carries, or else the driver of its input
is a block of a loop that is not due, and it is fed what was found for that block. -/
theorem Reachable.recurs (hs : s.Reachable) (hunforced : s.forcedStep = none)
    (hd : s.diagram.WellFormed) (hported : s.diagram.Ported) :
    (∀ id, s.diagram.Holds Edit.addIntegrator id →
      (0 < s.iteration → ∃ x, s.diagram.Carries (.input id 1) 0 x ∧
        s.diagram.Carries (.output id 0) 0 x) ∧
      ∀ k, k + 1 < s.iteration → ∃ clock step last slope, s.diagram.clock = .ok clock ∧
        s.diagram.StepAfter clock k step ∧ s.diagram.Carries (.output id 0) k last ∧
          s.diagram.Carries (.input id 0) k slope ∧
            s.diagram.Carries (.output id 0) (k + 1) (last + slope * max step leastStep)) ∧
    (∀ id, s.diagram.Holds Edit.addDerivator id →
      (0 < s.iteration → ∃ x, s.diagram.Carries (.input id 1) 0 x ∧
        s.diagram.Carries (.output id 0) 0 x) ∧
      ∀ k, k + 1 < s.iteration → ∃ tick clock before fed, tick.iteration = k + 1 ∧
        s.diagram.Past tick ∧ s.diagram.clock = .ok clock ∧
          s.diagram.StepAfter clock k tick.step ∧ s.diagram.Carries (.input id 0) k before ∧
            (s.diagram.Carries (.input id 0) (k + 1) fed ∨
              s.diagram.Withheld tick (.input id 0) fed) ∧
              s.diagram.Carries (.output id 0) (k + 1)
                ((fed - before) / max tick.step leastStep)) := by
  constructor
  · intro id hholds
    have hworks {tick : Tick ℚ} (hpast : s.diagram.Past tick) :=
      hholds.works (fun _ _ _ _ _ => addIntegrator_laid) integrator_shallow hd hported hpast
    refine ⟨fun hfirst => ?_, fun k hk => ?_⟩
    · obtain ⟨tick, hzero, hpast⟩ := hs.past hunforced 0 hfirst
      exact (hworks hpast).integrates_first hzero
    · obtain ⟨tick, hiteration, hpast⟩ := hs.past hunforced (k + 1) hk
      obtain ⟨clock, _, hclock, _, _, hstep⟩ := hpast.next k hiteration
      obtain ⟨last, slope, hlast, hslope, houtput⟩ := (hworks hpast).integrates_next hiteration
      exact ⟨clock, tick.step, last, slope, hclock, hstep, hlast, hslope, houtput⟩
  · intro id hholds
    have hworks {tick : Tick ℚ} (hpast : s.diagram.Past tick) :=
      hholds.works (fun _ _ _ _ _ => addDerivator_laid) derivator_shallow hd hported hpast
    refine ⟨fun hfirst => ?_, fun k hk => ?_⟩
    · obtain ⟨tick, hzero, hpast⟩ := hs.past hunforced 0 hfirst
      exact (hworks hpast).derives_first hzero
    · obtain ⟨tick, hiteration, hpast⟩ := hs.past hunforced (k + 1) hk
      obtain ⟨clock, _, hclock, _, _, hstep⟩ := hpast.next k hiteration
      obtain ⟨before, fed, hbefore, hfed, houtput⟩ := (hworks hpast).derives_next hiteration
      exact ⟨tick, clock, before, fed, hiteration, hpast, hclock, hstep, hbefore,
        hfed.imp_right And.right, houtput⟩

/-- A model with a clock, a sum that is computed at every other iteration, and what it needs. -/
def feedbackStart : Editor ℚ :=
  performAll { diagram := .empty "m" [] [] }
    [.addBlock ⟨0⟩ "k" (.clock 0 1), .addBlock ⟨0⟩ "t" .time, .addBlock ⟨0⟩ "a" (.adder 2),
      .addBlock ⟨0⟩ "n" .negator, .addBlock ⟨0⟩ "zero" (.constant 0), .setRate ⟨3⟩ (some 2)]

def feedbackDerivator : Editor ℚ := (Edit.addDerivator ⟨0⟩ "d" feedbackStart).state

def feedbackIntegrator : Editor ℚ := (Edit.addIntegrator ⟨0⟩ "i" feedbackDerivator).state

/-- The derivator of the sum goes back into the sum, and the integrator integrates the time. -/
def feedbackLinks : List (DiagramCall ℚ) :=
  [.connect ⟨0⟩ "n" "a" none none, .connect ⟨0⟩ "t" "a" none none,
    .connect ⟨0⟩ "a" "d" none (some "IN1"), .connect ⟨0⟩ "zero" "d" none (some initialCondition),
    .connect ⟨0⟩ "d" "n" none none, .connect ⟨0⟩ "t" "i" none (some "IN1"),
    .connect ⟨0⟩ "zero" "i" none (some initialCondition)]

def feedbackModel : Diagram ℚ := (performAll feedbackIntegrator feedbackLinks).diagram

theorem feedbackModel_built : feedbackModel.Built := by
  have hstart : feedbackStart.diagram.Built := by
    refine .performAll (.empty "m" [] []) fun call hcall e => ?_
    simp only [List.mem_cons, List.not_mem_nil, or_false] at hcall
    obtain rfl | rfl | rfl | rfl | rfl | rfl := hcall <;> exact trivial
  have hderivator := hstart.call (.addDerivator ⟨0⟩ "d") trivial
  rw [DiagramCall.perform, EStateM.state_discard] at hderivator
  have hintegrator := hderivator.call (.addIntegrator ⟨0⟩ "i") trivial
  rw [DiagramCall.perform, EStateM.state_discard] at hintegrator
  refine .performAll hintegrator fun call hcall e => ?_
  simp only [feedbackLinks, List.mem_cons, List.not_mem_nil, or_false] at hcall
  obtain rfl | rfl | rfl | rfl | rfl | rfl | rfl := hcall <;> exact trivial

/-- A run of that model, after some turns. -/
def feedbackAfter : Nat → Simulation ℚ Unit
  | 0 => make { diagram := feedbackModel.clearSignals } .standard ()
  | turns + 1 => (advance (feedbackAfter turns)).state

theorem feedbackAfter_reachable : (feedbackAfter 2).Reachable ∧
    feedbackModel.SameShape (feedbackAfter 2).diagram := by
  have hcleared : feedbackModel.SameShape (feedbackAfter 0).diagram :=
    feedbackModel.sameShape_clearSignals
  have hmade : (feedbackAfter 0).Reachable :=
    .make _ _ (hcleared.fitted feedbackModel_built.fitted) feedbackModel.unsampled_clearSignals
  obtain ⟨hturns, hclock⟩ : (∀ k < 2, (advance (feedbackAfter k)).answer? = some none) ∧
      (feedbackAfter 0).diagram.clock.toOption = some ⟨1⟩ := by
    decide +kernel
  obtain ⟨hreachable, hshape⟩ := hmade.advances (Except.eq_ok_of_toOption hclock) fun k hk =>
    EStateM.Result.eq_ok (hturns k hk)
  exact ⟨hreachable, hcleared.trans hshape⟩

theorem feedbackAfter_holds : (feedbackAfter 2).diagram.Holds Edit.addDerivator ⟨6⟩ ∧
    (feedbackAfter 2).diagram.Holds Edit.addIntegrator ⟨16⟩ := by
  obtain ⟨_, hshape⟩ := feedbackAfter_reachable
  obtain ⟨hderivator, hintegrator, hunrated, hunrated'⟩ :
      (Edit.addDerivator ⟨0⟩ "d" feedbackStart).answer? = some ⟨6⟩ ∧
        (Edit.addIntegrator ⟨0⟩ "i" feedbackDerivator).answer? = some ⟨16⟩ ∧
          (∀ b? ∈ feedbackModel.blocks.toList, ∀ b ∈ b?, b.parent = some ⟨6⟩ → b.rate = none) ∧
          (∀ b? ∈ feedbackModel.blocks.toList, ∀ b ∈ b?, b.parent = some ⟨16⟩ → b.rate = none) := by
    decide +kernel
  have hunrated : feedbackModel.Unrated ⟨6⟩ := AllBlocks.of_mem hunrated
  have hunrated' : feedbackModel.Unrated ⟨16⟩ := AllBlocks.of_mem hunrated'
  have hlinks : ∀ call ∈ feedbackLinks, call.Adding := by
    intro call hcall
    simp only [feedbackLinks, List.mem_cons, List.not_mem_nil, or_false] at hcall
    obtain rfl | rfl | rfl | rfl | rfl | rfl | rfl := hcall <;> exact trivial
  have hcalls : ∀ call ∈ .addIntegrator ⟨0⟩ "i" :: feedbackLinks, call.Adding :=
    List.forall_mem_cons.mpr ⟨trivial, hlinks⟩
  have hsame : performAll feedbackDerivator (.addIntegrator ⟨0⟩ "i" :: feedbackLinks) =
      performAll feedbackIntegrator feedbackLinks := by
    rw [performAll, List.foldl_cons, DiagramCall.perform, EStateM.state_discard]
    rfl
  constructor
  · refine .of_calls (EStateM.Result.eq_ok hderivator) hcalls ?_ ?_
    · change (performAll feedbackDerivator _).diagram.SameShape _
      rw [hsame]
      exact hshape
    · change (performAll feedbackDerivator _).diagram.Unrated _
      rw [hsame]
      exact hunrated
  · exact .of_calls (EStateM.Result.eq_ok hintegrator) hlinks hshape hunrated'

/-- The sum carries zero twice, but the derivator comes to a half. -/
theorem feedbackAfter_shows : (feedbackAfter 2).diagram.clock = .ok ⟨1⟩ ∧
    (feedbackAfter 2).forcedStep = none ∧ (feedbackAfter 2).iteration = 2 ∧
      (∀ k step, (feedbackAfter 2).diagram.StepAfter ⟨1⟩ k step ↔ step = 1) ∧
        (feedbackAfter 2).diagram.Carries (.input ⟨6⟩ 0) 0 0 ∧
          (feedbackAfter 2).diagram.Carries (.input ⟨6⟩ 0) 1 0 ∧
            (feedbackAfter 2).diagram.Carries (.output ⟨6⟩ 0) 1 (1 / 2) := by
  obtain ⟨hclock, hunforced, hturns, hparameters, hopen, hcarried⟩ :
      (feedbackAfter 2).diagram.clock.toOption = some ⟨1⟩ ∧ (feedbackAfter 2).forcedStep = none ∧
        (feedbackAfter 2).iteration = 2 ∧
          ((feedbackAfter 2).clockParameters ⟨1⟩).toOption = some (0, 1) ∧
            (∃ b, (feedbackAfter 2).diagram.block? ⟨1⟩ = some b ∧ b.isLinked = false) ∧
              (feedbackAfter 2).diagram.Carries (.input ⟨6⟩ 0) 0 0 ∧
                (feedbackAfter 2).diagram.Carries (.input ⟨6⟩ 0) 1 0 ∧
                  (feedbackAfter 2).diagram.Carries (.output ⟨6⟩ 0) 1 (1 / 2) := by
    decide +kernel
  exact ⟨Except.eq_ok_of_toOption hclock, hunforced, hturns, fun _ _ =>
    stepAfter_iff (Except.eq_ok_of_toOption hparameters) hopen, hcarried⟩

theorem feedback_step : max 1 leastStep = (1 : ℚ) := max_eq_left (by norm_num [leastStep])

/-- The derivator is fed zero first, and then the half that was found for the sum. -/
theorem recurs_feedback : ∃ s : Simulation ℚ Unit, s.Reachable ∧ s.forcedStep = none ∧
    s.diagram.WellFormed ∧ s.diagram.Ported ∧ s.diagram.Holds Edit.addDerivator ⟨6⟩ ∧
      s.diagram.Holds Edit.addIntegrator ⟨16⟩ ∧
        (∃ x, s.diagram.Carries (.input ⟨16⟩ 1) 0 x ∧ s.diagram.Carries (.output ⟨16⟩ 0) 0 x) ∧
        (∃ last slope, s.diagram.Carries (.output ⟨16⟩ 0) 0 last ∧
          s.diagram.Carries (.input ⟨16⟩ 0) 0 slope ∧
            s.diagram.Carries (.output ⟨16⟩ 0) 1 (last + slope * max 1 leastStep)) ∧
        ∃ tick, tick.iteration = 1 ∧ s.diagram.Past tick ∧
          s.diagram.Withheld tick (.input ⟨6⟩ 0) (1 / 2) := by
  obtain ⟨hreachable, hshape⟩ := feedbackAfter_reachable
  obtain ⟨hderivator, hintegrator⟩ := feedbackAfter_holds
  obtain ⟨hclock, hunforced, hturns, hsteps, hfirst, hsecond, houtput⟩ := feedbackAfter_shows
  have hd := hshape.wellFormed feedbackModel_built.wellFormed
  have hported := hshape.ported feedbackModel_built.ported
  obtain ⟨hintegrates, hderives⟩ := hreachable.recurs hunforced hd hported
  obtain ⟨hstart, hnext⟩ := hintegrates ⟨16⟩ hintegrator
  obtain ⟨clock, step, last, slope, hclock', hstep, hlast, hslope, hsum⟩ := hnext 0 (by omega)
  cases hclock.symm.trans hclock'
  cases (hsteps 0 step).mp hstep
  obtain ⟨tick, _, before, fed, hiteration, hpast, hclock', hstep, hbefore, hfed, hquotient⟩ :=
    (hderives ⟨6⟩ hderivator).2 0 (by omega)
  cases hclock.symm.trans hclock'
  cases hbefore.unique hfirst
  rw [(hsteps 0 tick.step).mp hstep, feedback_step, sub_zero, div_one] at hquotient
  obtain rfl : fed = 1 / 2 := hquotient.unique houtput
  have hwithheld := hfed.resolve_left fun hcarried => by
    have hzero := hcarried.unique hsecond
    norm_num at hzero
  exact ⟨_, hreachable, hunforced, hd, hported, hderivator, hintegrator, hstart (by omega),
    ⟨last, slope, hlast, hslope, hsum⟩, tick, hiteration, hpast, hwithheld⟩

/-- The input of the derivator does not change, but the derivator does not give zero. -/
theorem not_recurs_feedback : ∃ (s : Simulation ℚ Unit) (clock : BlockId), s.Reachable ∧
    s.forcedStep = none ∧ s.diagram.WellFormed ∧ s.diagram.Ported ∧
      s.diagram.Holds Edit.addDerivator ⟨6⟩ ∧ s.diagram.clock = .ok clock ∧
        s.diagram.StepAfter clock 0 1 ∧ s.diagram.Carries (.input ⟨6⟩ 0) 0 0 ∧
          s.diagram.Carries (.input ⟨6⟩ 0) 1 0 ∧
            ¬s.diagram.Carries (.output ⟨6⟩ 0) 1 ((0 - 0) / max 1 leastStep) := by
  obtain ⟨hreachable, hshape⟩ := feedbackAfter_reachable
  obtain ⟨hclock, hunforced, _, hsteps, hfirst, hsecond, houtput⟩ := feedbackAfter_shows
  refine ⟨_, ⟨1⟩, hreachable, hunforced, hshape.wellFormed feedbackModel_built.wellFormed,
    hshape.ported feedbackModel_built.ported, feedbackAfter_holds.1, hclock, (hsteps 0 1).mpr rfl,
    hfirst, hsecond, fun hzero => ?_⟩
  have hsame := hzero.unique houtput
  rw [feedback_step, sub_zero, div_one] at hsame
  norm_num at hsame

end Simulation

end CausalBlocks
