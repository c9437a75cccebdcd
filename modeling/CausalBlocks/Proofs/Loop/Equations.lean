import Mathlib.Algebra.BigOperators.Ring.Finset
import CausalBlocks.Loop.Solve
import CausalBlocks.Proofs.Diagram.Fitting
import CausalBlocks.Proofs.Loop.Elimination
import CausalBlocks.Simulation.Iteration

/-!
# Loops and their equations

The row that a loop's system has for a block says by how much the output that the
operator computes differs from the unknown of the block. In exact arithmetic the
values that the solver finds are therefore the outputs that all blocks of the loop
compute from each other, and there are no others.
-/

namespace CausalBlocks

variable {n : Nat}

/-! ### Rows -/

namespace LinearSystem

variable {s s' s'' : LinearSystem ℚ n} {row : Fin n}

theorem excess_zero (x : Fin n → ℚ) (row : Fin n) : (zero ℚ n).excess x row = 0 := by
  have hentry : ∀ col, ((zero ℚ n).matrix.get row).get col = 0 := fun col => by
    change (zero ℚ n).matrix[row][col] = 0
    simp [zero]
  have hsource : (zero ℚ n).source.get row = 0 := by
    change (zero ℚ n).source[row] = 0
    simp [zero]
  simp only [excess, hentry, hsource, zero_mul, Finset.sum_const_zero, sub_zero]

/-- One row of a system changes, by an amount that depends on the unknowns. -/
def Adds (row : Fin n) (f : (Fin n → ℚ) → ℚ) (s s' : LinearSystem ℚ n) : Prop :=
  ∀ x r, s'.excess x r = s.excess x r + if r = row then f x else 0

theorem Adds.refl (row : Fin n) (s : LinearSystem ℚ n) : Adds row (fun _ => 0) s s := by
  intro x r
  rw [ite_self, add_zero]

theorem Adds.trans {f g : (Fin n → ℚ) → ℚ} (h : Adds row f s s') (h' : Adds row g s' s'') :
    Adds row (fun x => f x + g x) s s'' := by
  intro x r
  rw [h' x r, h x r]
  split <;> ring

theorem modifyCoefficient_adds (s : LinearSystem ℚ n) (row col : Fin n) (f : ℚ → ℚ) :
    Adds row (fun x => (f ((s.matrix.get row).get col) - (s.matrix.get row).get col) * x col) s
      (s.modifyCoefficient row col f) := by
  intro x r
  have hentry : ∀ c, ((s.modifyCoefficient row col f).matrix.get r).get c =
      if r = row ∧ c = col then f ((s.matrix.get row).get col) else (s.matrix.get r).get c := by
    intro c
    have hrow := get_set s.matrix row r (s.matrix[row].set col (f s.matrix[row][col]))
    rw [modifyCoefficient, hrow]
    by_cases hr : r = row
    · subst hr
      simp only [if_true, true_and]
      exact get_set (s.matrix.get r) col c _
    · rw [if_neg hr, if_neg fun hboth => hr hboth.1]
  have hsource : (s.modifyCoefficient row col f).source = s.source := rfl
  simp only [excess, hentry, hsource]
  split
  next hr =>
    subst hr
    -- only the term of one column is another one
    have hterm : ∀ c, (if r = r ∧ c = col then f ((s.matrix.get r).get col)
        else (s.matrix.get r).get c) * x c = (s.matrix.get r).get c * x c +
          if c = col then (f ((s.matrix.get r).get col) - (s.matrix.get r).get col) * x col
          else 0 := by
      intro c
      by_cases hc : c = col
      · subst hc
        simp only [and_self, if_true]
        ring
      · simp [hc]
    rw [Finset.sum_congr rfl fun c _ => hterm c, Finset.sum_add_distrib, Finset.sum_ite_eq',
      if_pos (Finset.mem_univ col)]
    ring
  next hr => simp [hr]

theorem addCoefficient_adds (s : LinearSystem ℚ n) (row col : Fin n) (value : ℚ) :
    Adds row (fun x => value * x col) s (s.addCoefficient row col value) := by
  intro x r
  rw [addCoefficient, modifyCoefficient_adds s row col _ x r, add_sub_cancel_left]

theorem addSource_adds (s : LinearSystem ℚ n) (row : Fin n) (value : ℚ) :
    Adds row (fun _ => -value) s (s.addSource row value) := by
  intro x r
  have hmatrix : (s.addSource row value).matrix = s.matrix := rfl
  have hsource : (s.addSource row value).source.get r =
      if r = row then s.source.get row + value else s.source.get r := by
    exact get_set s.source row r _
  simp only [excess, hmatrix, hsource]
  split
  next hr =>
    subst hr
    ring
  next => ring

/-- A row in which nothing has been entered. -/
def Blank (s : LinearSystem ℚ n) (row : Fin n) : Prop := ∀ x, s.excess x row = 0

theorem Blank.coefficient (h : s.Blank row) (col : Fin n) :
    (s.matrix.get row).get col = 0 := by
  have hsource := h 0
  have hentry := h (Pi.single col 1)
  simp only [excess, Pi.zero_apply, mul_zero, Finset.sum_const_zero, zero_sub, neg_eq_zero]
    at hsource
  simpa only [excess, hsource, sub_zero, Pi.single_apply, mul_ite, mul_one, mul_zero,
    Finset.sum_ite_eq', Finset.mem_univ, if_true] using hentry

theorem Blank.setCoefficient_adds (h : s.Blank row) :
    Adds row (fun x => -x row) s (s.setCoefficient row row (-1)) := by
  intro x r
  rw [setCoefficient, modifyCoefficient_adds s row row _ x r, h.coefficient row]
  norm_num

end LinearSystem

/-! ### Operands -/

/-- What an operand is worth when the unknowns have given values. -/
def Operand.value (x : Fin n → ℚ) : Operand ℚ n → ℚ
  | .unknown member => x member
  | .known value => value

/-- Whether an operand is the output of a member. -/
def Operand.isUnknown : Operand ℚ n → Bool
  | .unknown _ => true
  | .known _ => false

theorem addOperand_adds (s : LinearSystem ℚ n) (row : Fin n) (operand : Operand ℚ n) :
    LinearSystem.Adds row (fun x => operand.value x) s (Diagram.addOperand s row operand) := by
  cases operand with
  | unknown member =>
      simpa only [Diagram.addOperand, Operand.value, one_mul] using s.addCoefficient_adds row member 1
  | known value =>
      simpa only [Diagram.addOperand, Operand.value, neg_neg] using s.addSource_adds row (-value)

theorem addOperands_adds (s : LinearSystem ℚ n) (row : Fin n) (operands : List (Operand ℚ n)) :
    LinearSystem.Adds row (fun x => (operands.map (Operand.value x)).sum) s
      (operands.foldl (fun s operand => Diagram.addOperand s row operand) s) := by
  induction operands generalizing s with
  | nil => exact .refl row s
  | cons operand rest ih =>
      simp only [List.map_cons, List.sum_cons]
      exact (addOperand_adds s row operand).trans (ih _)

/-- A product under way: the known factors so far, and the unknown one. -/
def factorsValue (x : Fin n → ℚ) (sofar : ℚ × Option (Fin n)) : ℚ :=
  sofar.1 * match sofar.2 with
    | some member => x member
    | none => 1

/-- A product with one unknown factor at most is its known factors times that one. -/
theorem factorsValue_foldl (x : Fin n → ℚ)
    {multiply : ℚ × Option (Fin n) → Operand ℚ n → ℚ × Option (Fin n)}
    (hunknown : ∀ sofar member, multiply sofar (.unknown member) = (sofar.1, some member))
    (hknown : ∀ sofar value, multiply sofar (.known value) = (sofar.1 * value, sofar.2))
    {factors : List (Operand ℚ n)} {sofar : ℚ × Option (Fin n)}
    (h : (factors.filter Operand.isUnknown).length + sofar.2.toList.length ≤ 1) :
    factorsValue x (factors.foldl multiply sofar) =
      factorsValue x sofar * (factors.map (Operand.value x)).prod := by
  induction factors generalizing sofar with
  | nil => rw [List.foldl_nil, List.map_nil, List.prod_nil, mul_one]
  | cons factor rest ih =>
      rw [List.foldl_cons, List.map_cons, List.prod_cons]
      cases factor with
      | unknown member =>
          rw [List.filter_cons_of_pos rfl, List.length_cons] at h
          have hnone : sofar.2 = none := by
            rw [← Option.toList_eq_nil_iff, ← List.length_eq_zero_iff]
            omega
          rw [hunknown, ih (by simp only [Option.toList_some, List.length_singleton]; omega)]
          simp only [factorsValue, hnone, Operand.value]
          ring
      | known value =>
          rw [List.filter_cons_of_neg (by simp [Operand.isUnknown])] at h
          have hrest := @ih (sofar.1 * value, sofar.2) h
          rw [hknown, hrest]
          simp only [factorsValue, Operand.value]
          ring

/-! ### What a loop has to satisfy -/

namespace Diagram

/-- What drives the inputs of a block in a loop whose outputs have given values at an
iteration. Everything else is read off the samples. -/
def loopReader {α : Type} (d : Diagram α) (outputs : List (BlockId × α)) (now : Nat)
    (id : BlockId) : Reader α := fun port iteration => do
  let driver ← d.driverOf (.input id port)
  match if driver.side = .output ∧ iteration = now then outputs.lookup driver.block else none with
  | some value => return value
  | none => return (← d.inputSample id port iteration).value

/-- Values are the outputs that the blocks of a loop compute from each other. -/
def SolvesLoop {α : Type} [Scalar α] (d : Diagram α) (group : List BlockId) (tick : Tick α)
    (values : List α) : Prop :=
  values.length = group.length ∧ ∀ id value, (id, value) ∈ group.zip values →
    ∃ b, d.block? id = some b ∧ b.operator.compute (d.pathOf id) tick
      (d.loopReader (group.zip values) tick.iteration id) = .ok [value]

/-! ### Members -/

variable {d : Diagram ℚ} {group : List BlockId} {id : BlockId} {iteration port : Nat}

theorem get_of_memberIndex? {member : Fin group.length}
    (h : memberIndex? group id = some member) : group.get member = id := by
  simpa using List.find?_some h

theorem notMem_of_memberIndex? (h : memberIndex? group id = none) : id ∉ group := by
  intro hmem
  obtain ⟨i, hi, hid⟩ := List.getElem_of_mem hmem
  have hnot := List.find?_eq_none.mp h ⟨i, hi⟩ (by simp)
  simp [hid] at hnot

theorem lookup_zip_of_notMem (values : List ℚ) (h : id ∉ group) :
    (group.zip values).lookup id = none := by
  rw [List.lookup_eq_none_iff]
  rintro ⟨other, value⟩ hmem
  have hother := (List.of_mem_zip hmem).1
  simpa using fun heq : id = other => h (heq ▸ hother)

theorem lookup_zip_getElem (hnodup : group.Nodup) {values : List ℚ}
    (hlength : values.length = group.length) (i : Nat) (hi : i < group.length) :
    (group.zip values).lookup group[i] = values[i]? := by
  induction group generalizing values i with
  | nil => cases hi
  | cons first rest ih =>
      obtain ⟨value, values, rfl⟩ := List.exists_cons_of_length_eq_add_one hlength
      rw [List.nodup_cons] at hnodup
      cases i with
      | zero => simp
      | succ i =>
          have hi : i < rest.length := Nat.lt_of_succ_lt_succ hi
          have hne : rest[i] ≠ first := fun heq => hnodup.1 (heq ▸ List.getElem_mem hi)
          rw [List.zip_cons_cons, List.lookup_cons, List.getElem_cons_succ,
            beq_eq_false_iff_ne.mpr hne]
          exact ih hnodup.2 (Nat.succ.inj hlength) i hi

/-- The value of a member is found by its block. -/
theorem lookup_zip_ofFn (hnodup : group.Nodup) (x : Fin group.length → ℚ) (id : BlockId) :
    (group.zip (List.ofFn x)).lookup id = (memberIndex? group id).map x := by
  cases hmember : memberIndex? group id with
  | none => exact lookup_zip_of_notMem _ (notMem_of_memberIndex? hmember)
  | some member =>
      rw [← get_of_memberIndex? hmember, List.get_eq_getElem,
        lookup_zip_getElem hnodup List.length_ofFn member.val member.isLt]
      simp

theorem operand_ok {o : Operand ℚ group.length} (h : d.operand group id iteration port = .ok o) :
    ∃ driver, d.driverOf (.input id port) = .ok driver ∧
      match memberAt? group driver with
      | some member => o = .unknown member
      | none => ∃ x, d.inputSample id port iteration = .ok x ∧ o = .known x.value := by
  obtain ⟨driver, hdriver, h⟩ := Except.bind_eq_ok.mp h
  refine ⟨driver, hdriver, ?_⟩
  cases hmember : memberAt? group driver with
  | some member =>
      rw [hmember] at h
      cases h
      rfl
  | none =>
      rw [hmember] at h
      obtain ⟨x, hx, h⟩ := Except.bind_eq_ok.mp h
      cases h
      exact ⟨x, hx, rfl⟩

/-- What is read for an input is what its operand is worth. -/
theorem loopReader_of_operand (hnodup : group.Nodup) (x : Fin group.length → ℚ)
    {o : Operand ℚ group.length} (h : d.operand group id iteration port = .ok o) :
    d.loopReader (group.zip (List.ofFn x)) iteration id port iteration = .ok (o.value x) := by
  obtain ⟨driver, hdriver, h⟩ := operand_ok h
  have hfound : (if driver.side = .output ∧ iteration = iteration then
      (group.zip (List.ofFn x)).lookup driver.block else none) =
        (memberAt? group driver).map x := by
    rw [lookup_zip_ofFn hnodup, memberAt?]
    cases driver.side <;> simp
  rw [loopReader, hdriver, Except.bind_eq_ok]
  refine ⟨driver, rfl, ?_⟩
  rw [hfound]
  cases hmember : memberAt? group driver with
  | some member =>
      rw [hmember] at h
      subst h
      rfl
  | none =>
      rw [hmember] at h
      obtain ⟨sample, hsample, rfl⟩ := h
      rw [Option.map_none, hsample]
      rfl

theorem length_filter_isUnknown {ports : List Nat} {operands : List (Operand ℚ group.length)}
    {drivers : List PortId} (hoperands : ports.mapM (d.operand group id iteration) = .ok operands)
    (hdrivers : ports.mapM (fun port => d.driverOf (.input id port)) = .ok drivers) :
    (operands.filter Operand.isUnknown).length =
      (drivers.filter fun driver => (memberAt? group driver).isSome).length := by
  have hunknown : ∀ port driver, d.driverOf (.input id port) = .ok driver →
      ∀ o, d.operand group id iteration port = .ok o →
        o.isUnknown = (memberAt? group driver).isSome := by
    intro port driver hdriver o ho
    obtain ⟨other, hother, ho⟩ := operand_ok ho
    cases hdriver.symm.trans hother
    cases hmember : memberAt? group driver with
    | some member =>
        rw [hmember] at ho
        rw [ho]
        rfl
    | none =>
        rw [hmember] at ho
        obtain ⟨_, _, rfl⟩ := ho
        rfl
  induction ports generalizing operands drivers with
  | nil =>
      cases hoperands
      cases hdrivers
      rfl
  | cons port rest ih =>
      simp only [List.mapM_cons, Except.bind_eq_ok] at hoperands hdrivers
      obtain ⟨o, ho, more, hmore, hoperands⟩ := hoperands
      obtain ⟨driver, hdriver, others, hothers, hdrivers⟩ := hdrivers
      cases hoperands
      cases hdrivers
      have hsame := hunknown port driver hdriver o ho
      rw [List.filter_cons, List.filter_cons, hsame]
      split
      · rw [List.length_cons, List.length_cons, ih hmore hothers]
      · exact ih hmore hothers

theorem checkLoop_ok (h : d.checkLoop group iteration = .ok ()) (hid : id ∈ group) :
    ∃ b, d.block? id = some b ∧ d.isLinearIn group iteration id b.operator = .ok true := by
  have hmember := Except.forM_eq_ok h id hid
  obtain ⟨b, hb, hmember⟩ := Except.bind_eq_ok.mp hmember
  obtain ⟨linear, hlinear, hmember⟩ := Except.bind_eq_ok.mp hmember
  refine ⟨b, block_eq_ok.mp hb, ?_⟩
  cases linear with
  | true => exact hlinear
  | false => cases hmember

/-! ### Equations of blocks -/

section Row

variable {s s' : LinearSystem ℚ group.length} {row : Fin group.length} {tick : Tick ℚ}
  {block : String} {read : (Fin group.length → ℚ) → Reader ℚ}

/-- A row in which the value that an operator computes has been entered. -/
def Enters (op : Operator ℚ) (block : String) (tick : Tick ℚ)
    (read : (Fin group.length → ℚ) → Reader ℚ) (row : Fin group.length)
    (s s' : LinearSystem ℚ group.length) : Prop :=
  ∃ f, LinearSystem.Adds row f s s' ∧ ∀ x, op.compute block tick (read x) = .ok [f x]

variable (hread : ∀ x port o, d.operand group id tick.iteration port = .ok o →
  read x port tick.iteration = .ok (o.value x))
include hread

theorem enters_adder {inputs : Nat}
    (h : (List.range inputs).foldlM (fun s port =>
      return addOperand s row (← d.operand group id tick.iteration port)) s = .ok s') :
    Enters (.adder inputs) block tick read row s s' := by
  obtain ⟨operands, hoperands, rfl⟩ := Except.exists_mapM_of_foldlM h
  refine ⟨_, addOperands_adds s row operands, fun x => ?_⟩
  have hall := Except.mapM_ok_of_imp (hread x) hoperands
  simp only [Operator.compute, hall]
  -- the sum starts from the negative of zero, which is zero
  have hsum : Scalar.sum (operands.map (Operand.value x)) =
      (operands.map (Operand.value x)).sum := by
    rw [List.sum_eq_foldl, Scalar.sum]
    congr 1
  rw [← hsum]
  rfl

theorem enters_product {inputs : Nat} {operands : List (Operand ℚ group.length)}
    {multiply : ℚ × Option (Fin group.length) → Operand ℚ group.length →
      ℚ × Option (Fin group.length)}
    (hlinear : d.isLinearIn group tick.iteration id (.product inputs) = .ok true)
    (hoperands : (List.range inputs).mapM (d.operand group id tick.iteration) = .ok operands)
    {product : ℚ × Option (Fin group.length)}
    (hproduct : operands.foldl multiply (1, none) = product)
    (hunknown : ∀ sofar member, multiply sofar (.unknown member) = (sofar.1, some member))
    (hknown : ∀ sofar value, multiply sofar (.known value) = (sofar.1 * value, sofar.2))
    (h : s' = match product with
      | (known, some member) => s.addCoefficient row member known
      | (known, none) => s.addSource row (-known)) :
    Enters (.product inputs) block tick read row s s' := by
  obtain ⟨drivers, hdrivers, hcount⟩ := Except.bind_eq_ok.mp hlinear
  have hcount : (operands.filter Operand.isUnknown).length ≤ 1 := by
    rw [length_filter_isUnknown hoperands hdrivers]
    exact of_decide_eq_true (Except.ok.inj hcount)
  have hvalue : ∀ x, factorsValue x product = (operands.map (Operand.value x)).prod := by
    intro x
    rw [← hproduct, factorsValue_foldl x hunknown hknown (by simpa using hcount), factorsValue]
    simp
  refine ⟨fun x => factorsValue x product, ?_, fun x => ?_⟩
  · obtain ⟨known, _ | member⟩ := product <;> subst h
    · simpa only [factorsValue, neg_neg, mul_one] using s.addSource_adds row (-known)
    · exact s.addCoefficient_adds row member known
  · have hall := Except.mapM_ok_of_imp (hread x) hoperands
    simp only [Operator.compute, hall]
    rw [hvalue x, List.prod_eq_foldl]
    rfl

theorem enters_negator {o : Operand ℚ group.length}
    (ho : d.operand group id tick.iteration 0 = .ok o)
    (h : s' = match o with
      | .unknown member => s.addCoefficient row member (-1)
      | .known value => s.addSource row value) :
    Enters .negator block tick read row s s' := by
  refine ⟨fun x => -o.value x, ?_, fun x => ?_⟩
  · cases o with
    | unknown member =>
        rw [h]
        simpa only [Operand.value, neg_one_mul] using s.addCoefficient_adds row member (-1)
    | known value =>
        rw [h]
        exact s.addSource_adds row value
  · simp only [Operator.compute, hread x 0 o ho]
    rfl

theorem enters_delay {o : Operand ℚ group.length} (hfirst : tick.iteration = 0)
    (ho : d.operand group id tick.iteration 1 = .ok o) (h : s' = addOperand s row o) :
    Enters .delay block tick read row s s' := by
  refine ⟨fun x => o.value x, h ▸ addOperand_adds s row o, fun x => ?_⟩
  have hvalue := hread x 1 o ho
  rw [hfirst] at hvalue
  simp only [Operator.compute, if_pos hfirst, hvalue]
  rfl

end Row

/-- A delay has its initial condition on its second input. -/
theorem inputIndex?_initialCondition {α : Type} {b : Block α} (hported : b.Ported)
    (hdelay : b.operator = .delay) : b.inputIndex? initialCondition = some 1 := by
  have hnames := hported (by rw [Block.isComposite, hdelay]; rfl)
  rw [hdelay] at hnames
  have hindex : ∀ ports : List (Port α), ports.findIdx? (fun p => p.name == initialCondition) =
      (ports.map Port.name).findIdx? (· == initialCondition) := fun ports => by
    rw [List.findIdx?_map]
    rfl
  rw [Block.inputIndex?, hindex, hnames]
  rfl

/-- What the block of a row computes, as a function of the unknowns. -/
def Computes (d : Diagram ℚ) (group : List BlockId) (tick : Tick ℚ) (row : Fin group.length)
    (f : (Fin group.length → ℚ) → ℚ) : Prop :=
  ∃ b, d.block? (group.get row) = some b ∧
    ∀ x, b.operator.compute (d.pathOf (group.get row)) tick
      (d.loopReader (group.zip (List.ofFn x)) tick.iteration (group.get row)) = .ok [f x]

/-- The row of a block says by how much its output differs from its unknown. -/
theorem addEquation_ok (hported : d.Ported) (hnodup : group.Nodup) {tick : Tick ℚ}
    (hcheck : d.checkLoop group tick.iteration = .ok ()) {s s' : LinearSystem ℚ group.length}
    {row : Fin group.length} (hblank : s.Blank row)
    (h : d.addEquation group tick.iteration s row = .ok s') :
    ∃ f, d.Computes group tick row f ∧ LinearSystem.Adds row (fun x => f x - x row) s s' := by
  obtain ⟨b, hb, hlinear⟩ := checkLoop_ok hcheck (List.getElem_mem row.isLt)
  obtain ⟨b', hb', h⟩ := Except.bind_eq_ok.mp h
  cases hb.symm.trans (block_eq_ok.mp hb')
  have hself := hblank.setCoefficient_adds
  have hread : ∀ x port o, d.operand group (group.get row) tick.iteration port = .ok o →
      d.loopReader (group.zip (List.ofFn x)) tick.iteration (group.get row) port tick.iteration =
        .ok (o.value x) := fun x port o ho => loopReader_of_operand hnodup x ho
  suffices hrow : Enters b.operator (d.pathOf (group.get row)) tick
      (fun x => d.loopReader (group.zip (List.ofFn x)) tick.iteration (group.get row)) row
        (s.setCoefficient row row (-1)) s' by
    obtain ⟨f, hadds, hcompute⟩ := hrow
    refine ⟨f, ⟨b, hb, hcompute⟩, ?_⟩
    simpa only [neg_add_eq_sub] using hself.trans hadds
  cases hoperator : b.operator with
  | adder inputs =>
      rw [hoperator] at h
      exact enters_adder hread h
  | product inputs =>
      rw [hoperator] at h hlinear
      obtain ⟨operands, hoperands, h⟩ := Except.bind_eq_ok.mp h
      dsimp only at h
      generalize hproduct : List.foldl _ _ operands = product at h
      refine enters_product hread hlinear hoperands hproduct (fun _ _ => rfl) (fun _ _ => rfl) ?_
      obtain ⟨known, _ | member⟩ := product <;> cases h <;> rfl
  | negator =>
      rw [hoperator] at h
      obtain ⟨o, ho, h⟩ := Except.bind_eq_ok.mp h
      refine enters_negator hread ho ?_
      cases o <;> cases h <;> rfl
  | delay =>
      rw [hoperator] at h hlinear
      have hfirst : tick.iteration = 0 := by simpa [isLinearIn] using hlinear
      rw [inputIndex?_initialCondition (hported _ b hb) hoperator] at h
      dsimp only at h
      rw [if_pos hfirst] at h
      obtain ⟨o, ho, h⟩ := Except.bind_eq_ok.mp h
      cases h
      exact enters_delay hread hfirst ho rfl
  | _ =>
      rw [hoperator] at h
      cases h

/-- While the rows of a system are entered: those that are done hold the equations of their
blocks, the others nothing. -/
structure Entering (d : Diagram ℚ) (group : List BlockId) (tick : Tick ℚ)
    (rest : List (Fin group.length)) (s : LinearSystem ℚ group.length) : Prop where
  nodup : rest.Nodup
  blank : ∀ row ∈ rest, s.Blank row
  done : ∀ row ∉ rest, ∃ f, d.Computes group tick row f ∧ ∀ x, s.excess x row = f x - x row

theorem Entering.next {tick : Tick ℚ} {row : Fin group.length} {rest : List (Fin group.length)}
    {s s' : LinearSystem ℚ group.length} (h : d.Entering group tick (row :: rest) s)
    {f : (Fin group.length → ℚ) → ℚ} (hf : d.Computes group tick row f)
    (hadds : LinearSystem.Adds row (fun x => f x - x row) s s') :
    d.Entering group tick rest s' := by
  obtain ⟨hnot, hnodup⟩ := List.nodup_cons.mp h.nodup
  refine ⟨hnodup, fun other hother x => ?_, fun other hother => ?_⟩
  · have hne : other ≠ row := fun heq => hnot (heq ▸ hother)
    rw [hadds x other, if_neg hne, add_zero]
    exact h.blank other (List.mem_cons_of_mem row hother) x
  · by_cases heq : other = row
    · subst heq
      refine ⟨f, hf, fun x => ?_⟩
      rw [hadds x other, h.blank other List.mem_cons_self x, if_pos rfl, zero_add]
    · obtain ⟨g, hg, hexcess⟩ := h.done other (by simp [heq, hother])
      refine ⟨g, hg, fun x => ?_⟩
      rw [hadds x other, if_neg heq, add_zero, hexcess x]

/-- The values of a loop are outputs that its blocks compute if each unknown is what its block
makes of them all. -/
theorem solvesLoop_iff {tick : Tick ℚ} {f : Fin group.length → (Fin group.length → ℚ) → ℚ}
    (hf : ∀ row, d.Computes group tick row (f row)) (x : Fin group.length → ℚ) :
    d.SolvesLoop group tick (List.ofFn x) ↔ ∀ row, f row x = x row := by
  constructor
  · intro hsolves row
    obtain ⟨b, hb, hcompute⟩ := hf row
    have hmem : (group.get row, x row) ∈ group.zip (List.ofFn x) := by
      rw [List.mem_iff_getElem]
      exact ⟨row, by simp, by simp⟩
    obtain ⟨b', hb', hvalue⟩ := hsolves.2 _ _ hmem
    cases hb.symm.trans hb'
    have hsame := Except.ok.inj ((hcompute x).symm.trans hvalue)
    exact (List.cons.inj hsame).1
  · refine fun hfixed => ⟨List.length_ofFn, fun id value hmem => ?_⟩
    obtain ⟨i, hi, hmem⟩ := List.getElem_of_mem hmem
    have hi : i < group.length := by simpa using hi
    rw [List.getElem_zip, List.getElem_ofFn] at hmem
    cases hmem
    obtain ⟨b, hb, hcompute⟩ := hf ⟨i, hi⟩
    exact ⟨b, hb, by rw [← hfixed ⟨i, hi⟩]; exact hcompute x⟩

/-- The system of a loop holds for the outputs that its blocks compute from each other. -/
theorem loopSystem_ok (hported : d.Ported) (hnodup : group.Nodup) {tick : Tick ℚ}
    (hcheck : d.checkLoop group tick.iteration = .ok ()) {s : LinearSystem ℚ group.length}
    (h : d.loopSystem group tick.iteration = .ok s) (x : Fin group.length → ℚ) :
    s.Holds x ↔ d.SolvesLoop group tick (List.ofFn x) := by
  have hstep : ∀ row rest s s', d.Entering group tick (row :: rest) s →
      d.addEquation group tick.iteration s row = .ok s' → d.Entering group tick rest s' := by
    intro row rest s s' hentering hrow
    obtain ⟨f, hf, hadds⟩ := addEquation_ok hported hnodup hcheck
      (hentering.blank row List.mem_cons_self) hrow
    exact hentering.next hf hadds
  have hinit : d.Entering group tick (List.finRange group.length) (.zero ℚ group.length) :=
    ⟨List.nodup_finRange _, fun row _ x => LinearSystem.excess_zero x row,
      fun row hrow => absurd (List.mem_finRange row) hrow⟩
  have hrows := (Except.foldlM_ok hstep hinit h).done
  choose f hf hexcess using fun row => hrows row List.not_mem_nil
  rw [solvesLoop_iff hf]
  refine forall_congr' fun row => ?_
  rw [hexcess row x, sub_eq_zero]

/-- In exact arithmetic, the values found for a loop are the outputs that its blocks compute
from each other and from the samples of the iteration, and no other values are. -/
theorem solveLoop_unique (hported : d.Ported) (hnodup : group.Nodup) {tick : Tick ℚ}
    {found : List ℚ} (h : d.solveLoop group tick.iteration = .ok found) (values : List ℚ) :
    d.SolvesLoop group tick values ↔ values = found := by
  obtain ⟨_, hcheck, h⟩ := Except.bind_eq_ok.mp h
  obtain ⟨s, hs, h⟩ := Except.bind_eq_ok.mp h
  obtain ⟨solved, hsolve, rfl⟩ : ∃ solved, LinearSystem.solve s = .ok () solved ∧
      found = solved.solution.toList := by
    split at h <;> cases h
    exact ⟨_, ‹_›, rfl⟩
  have hholds := LinearSystem.eliminate_ok (LinearSystem.solve_ok hsolve)
  constructor
  · intro hsolves
    obtain ⟨x, rfl⟩ : ∃ x : Fin group.length → ℚ, values = List.ofFn x :=
      ⟨fun i => values.get (i.cast hsolves.1.symm),
        List.ext_getElem (by simp [hsolves.1]) fun i _ _ => by simp⟩
    rw [← ofFn_get, (hholds x).mp ((loopSystem_ok hported hnodup hcheck hs x).mpr hsolves)]
  · rintro rfl
    rw [← ofFn_get]
    exact (loopSystem_ok hported hnodup hcheck hs _).mp ((hholds _).mpr rfl)

/-- A model in which an adder adds a delay twice, itself and a constant, and the delay begins with
a product of the adder. -/
def feedback : Edit ℚ Unit := do
  Edit.addAll ⟨0⟩ [("c", .constant 3), ("a", .adder 4), ("d", .delay), ("p", .product 3)]
  Edit.connectAll ⟨0⟩ [("d", "a", none), ("d", "a", none), ("a", "a", none), ("c", "a", none),
    ("a", "d", some "IN1"), ("p", "d", some "IC"), ("c", "p", none), ("a", "p", none),
    ("c", "p", none)]

theorem feedback_ported : Edit.Keeps Ported feedback := by
  have hkept := (Block.ported_formal (α := ℚ)).lasting.keptByBuilding
  exact .bind (hkept.addAll _ _) fun _ => hkept.connectAll _ _

/-- The one solution of that loop in the first iteration. -/
theorem solveLoop_unique_feedback : ∃ (d : Diagram ℚ) (tick : Tick ℚ), d.Ported ∧
    d.solveLoop [⟨2⟩, ⟨3⟩, ⟨4⟩] tick.iteration = .ok [-1 / 6, -3 / 2, -3 / 2] ∧
      ∀ values, d.SolvesLoop [⟨2⟩, ⟨3⟩, ⟨4⟩] tick values ↔ values = [-1 / 6, -3 / 2, -3 / 2] := by
  let built := (feedback { diagram := .empty "m" [] [] }).state.diagram
  let d := built.recorded (.output ⟨1⟩ 0, ⟨0, 3⟩)
  have hbuilt : built.Ported := feedback_ported _ (Built.empty "m" [] []).ported
  have hported : d.Ported := SameShape.ported (built.sameShape_recordAll [_]) hbuilt
  have hsolve : d.solveLoop [⟨2⟩, ⟨3⟩, ⟨4⟩] 0 = .ok [-1 / 6, -3 / 2, -3 / 2] := by
    have hvalues : (d.solveLoop [⟨2⟩, ⟨3⟩, ⟨4⟩] 0).toOption = some [-1 / 6, -3 / 2, -3 / 2] := by
      decide +kernel
    cases hresult : d.solveLoop [⟨2⟩, ⟨3⟩, ⟨4⟩] 0 with
    | error failure =>
        rw [hresult] at hvalues
        cases hvalues
    | ok found =>
        rw [hresult] at hvalues
        rw [Option.some.inj hvalues]
  exact ⟨d, ⟨0, 0, 1, 0⟩, hported, hsolve, solveLoop_unique hported (by decide) hsolve⟩

end Diagram

end CausalBlocks
