import Mathlib.LinearAlgebra.Matrix.ToLinearEquiv
import Mathlib.LinearAlgebra.Matrix.NonsingularInverse
import CausalBlocks.Proofs.Failing
import CausalBlocks.Proofs.Loop.Elimination

/-!
# Which systems can be solved

In exact arithmetic elimination solves only systems whose matrix is invertible, and it refuses
a system only if another matrix, which differs from its own by less than the tolerance in
every place, is singular. A singular matrix is always refused, for a pivot of almost zero: no
row or column is ever used twice.
-/

namespace CausalBlocks

variable {n : Nat}

theorem Rational.abs_eq (x : ℚ) : Scalar.abs x = |x| := by
  change (if x < 0 then -x else x) = |x|
  split
  next h => rw [abs_of_neg h]
  next h => rw [abs_of_nonneg (not_lt.mp h)]

namespace Elimination

variable {s s' : Elimination ℚ n} {x : Fin n → ℚ} {row col first : Fin n}

/-! ### The largest free coefficient -/

theorem mem_free {i : Fin n} : i ∈ s.free ↔ i ∉ s.cleared := by
  simp [free]

/-- The last of the largest elements of a list is found by going through it. -/
theorem foldl_larger {β : Type} {size : β → ℚ} (hsize : ∀ b, 0 ≤ size b) (start : β) (xs : List β) :
    let best := xs.foldl (fun best x => if best.1 ≤ size x then (size x, x) else best) (0, start)
    (xs = [] ∧ best = (0, start)) ∨
      (best.2 ∈ xs ∧ best.1 = size best.2 ∧ ∀ x ∈ xs, size x ≤ size best.2) := by
  -- on the elements already seen; the first one is taken because no size is negative
  induction xs using List.reverseRecOn with
  | nil => exact .inl ⟨rfl, rfl⟩
  | append_singleton xs x ih =>
      rw [List.foldl_append, List.foldl_cons, List.foldl_nil]
      right
      obtain ⟨rfl, hbest⟩ | ⟨hmem, hsame, hmax⟩ := ih
      · rw [hbest, if_pos (hsize x)]
        exact ⟨List.mem_singleton_self x, rfl, fun y hy => by rw [List.mem_singleton.mp hy]⟩
      · split
        next hle =>
          refine ⟨List.mem_append_right xs (List.mem_singleton_self x), rfl, fun y hy => ?_⟩
          rcases List.mem_append.mp hy with hy | hy
          · exact (hmax y hy).trans (hsame ▸ hle)
          · rw [List.mem_singleton.mp hy]
        next hgt =>
          refine ⟨List.mem_append_left _ hmem, hsame, fun y hy => ?_⟩
          rcases List.mem_append.mp hy with hy | hy
          · exact hmax y hy
          · rw [List.mem_singleton.mp hy, ← hsame]
            exact (not_le.mp hgt).le

/-- As long as a column is free, the pivot is free and no free coefficient is larger. -/
theorem pivot_largest (hfree : ∃ i, i ∉ s.cleared) (first : Fin n) :
    (s.pivot first).1 ∉ s.cleared ∧ (s.pivot first).2 ∉ s.cleared ∧
      ∀ row ∉ s.cleared, ∀ col ∉ s.cleared, |(s.matrix.get row).get col| ≤
        |(s.matrix.get (s.pivot first).1).get (s.pivot first).2| := by
  let places := s.free.flatMap fun row => s.free.map fun col => (row, col)
  let size (place : Fin n × Fin n) : ℚ := Scalar.abs s.matrix[place.1][place.2]
  have hmem : ∀ place, place ∈ places ↔ place.1 ∉ s.cleared ∧ place.2 ∉ s.cleared := by
    rintro ⟨row, col⟩
    simp [places, mem_free]
  have hsize : ∀ place, size place = |(s.matrix.get place.1).get place.2| := fun place =>
    Rational.abs_eq _
  have hpositive : ∀ place, 0 ≤ size place := fun place => (hsize place).symm ▸ abs_nonneg _
  obtain ⟨i, hi⟩ := hfree
  obtain ⟨hnone, _⟩ | ⟨hpivot, _, hmax⟩ := foldl_larger hpositive (first, first) places
  · exact absurd ((hmem (i, i)).mpr ⟨hi, hi⟩) (hnone ▸ List.not_mem_nil)
  · obtain ⟨hrow, hcol⟩ := (hmem _).mp hpivot
    refine ⟨hrow, hcol, fun row hrow col hcol => ?_⟩
    rw [← hsize (row, col), ← hsize (s.pivot first)]
    exact hmax (row, col) ((hmem (row, col)).mpr ⟨hrow, hcol⟩)

/-- A round with a free column goes on, or all free coefficients are almost zero. -/
theorem round_of_free (hfree : ∃ i, i ∉ s.cleared) (first : Fin n) :
    (∃ s', s.round first = .ok s') ∨ (s.round first = .error .zeroPivot ∧
      ∀ row ∉ s.cleared, ∀ col ∉ s.cleared, |(s.matrix.get row).get col| < pivotTolerance) := by
  obtain ⟨_, hcol, hmax⟩ := pivot_largest hfree first
  rw [round]
  dsimp only
  rw [if_neg hcol]
  split
  next hsmall =>
    refine .inr ⟨rfl, fun row hr col hc => (hmax row hr col hc).trans_lt ?_⟩
    rw [Rational.abs_eq] at hsmall
    change |((s.swap (s.pivot first).1 (s.pivot first).2).matrix.get (s.pivot first).2).get
      (s.pivot first).2| < pivotTolerance at hsmall
    rwa [swap, get_swap, Equiv.swap_apply_right] at hsmall
  next => exact .inl ⟨_, rfl⟩

/-! ### What is left of a matrix -/

/-- What the equations make of values of the unknowns. -/
def image (s : Elimination ℚ n) (x : Fin n → ℚ) (row : Fin n) : ℚ :=
  ∑ col, s.coefficient row col * x col

theorem image_eq_excess (s : Elimination ℚ n) (x : Fin n → ℚ) (row : Fin n) :
    s.image x row = s.excess x row - s.excess 0 row := by
  simp [image, excess]

theorem image_swap (hrow : row ∉ s.cleared) (hcol : col ∉ s.cleared) (r : Fin n) :
    (s.swap row col).image x r = s.image x (Equiv.swap row col r) := by
  rw [image_eq_excess, image_eq_excess, excess_swap hrow hcol, excess_swap hrow hcol]

theorem image_clear (hcol : col ∉ s.cleared) (hpivot : s.coefficient col col ≠ 0) (r : Fin n) :
    (s.clear col).image x r = if r = col then s.image x col * (1 / s.coefficient col col)
      else s.image x r - s.image x col * (1 / s.coefficient col col) * s.coefficient r col := by
  simp only [image_eq_excess, excess_clear hcol hpivot]
  split <;> ring

/-- Where the cleared equations give nothing, the equations give what they gave in another
system, up to their order. -/
def Follows (s₀ s : Elimination ℚ n) : Prop := ∃ order : Equiv.Perm (Fin n), ∀ x,
  (∀ row ∈ s.cleared, s.image x row = 0) → ∀ row, s₀.image x row = s.image x (order row)

theorem Follows.refl (s : Elimination ℚ n) : Follows s s := ⟨1, fun _ _ _ => rfl⟩

theorem Follows.swap {s₀ : Elimination ℚ n} (h : Follows s₀ s) (hrow : row ∉ s.cleared)
    (hcol : col ∉ s.cleared) : Follows s₀ (s.swap row col) := by
  obtain ⟨order, horder⟩ := h
  refine ⟨order.trans (Equiv.swap row col), fun x hx r => ?_⟩
  have hcleared : ∀ r ∈ s.cleared, s.image x r = 0 := by
    intro r hr
    have hfixed : Equiv.swap row col r = r :=
      Equiv.swap_apply_of_ne_of_ne (fun heq => hrow (heq ▸ hr)) fun heq => hcol (heq ▸ hr)
    have hzero := hx r hr
    rwa [image_swap hrow hcol, hfixed] at hzero
  rw [horder x hcleared r, image_swap hrow hcol, Equiv.trans_apply, Equiv.swap_apply_self]

theorem Follows.clear {s₀ : Elimination ℚ n} (h : Follows s₀ s) (hcol : col ∉ s.cleared)
    (hpivot : s.coefficient col col ≠ 0) : Follows s₀ (s.clear col) := by
  obtain ⟨order, horder⟩ := h
  refine ⟨order, fun x hx r => ?_⟩
  -- the equation that was divided gives nothing, so it took nothing from the others
  have hhere : s.image x col = 0 := by
    have hzero := hx col List.mem_cons_self
    rw [image_clear hcol hpivot, if_pos rfl] at hzero
    exact (mul_eq_zero.mp hzero).resolve_right (one_div_ne_zero hpivot)
  have hsame : ∀ r, (s.clear col).image x r = s.image x r := by
    intro r
    rw [image_clear hcol hpivot, hhere]
    split
    next heq => rw [heq, hhere, zero_mul]
    next => rw [zero_mul, zero_mul, sub_zero]
  rw [horder x (fun r hr => hsame r ▸ hx r (List.mem_cons_of_mem col hr)) r, hsame]

theorem Follows.round {s₀ : Elimination ℚ n} (h : Follows s₀ s) (hround : s.round first = .ok s') :
    Follows s₀ s' := by
  rw [Elimination.round] at hround
  dsimp only at hround
  split at hround
  next => cases hround
  next hcol =>
    split at hround
    next => cases hround
    next htolerance =>
      cases hround
      refine (h.swap (pivot_free hcol) hcol).clear hcol ?_
      rw [coefficient_of_notMem (s := s.swap _ _) hcol]
      exact ne_zero_of_not_lt_tolerance htolerance

/-- A solution of the cleared equations in which one free unknown is 1 and the others are 0. -/
def kernelVector (s : Elimination ℚ n) (free col : Fin n) : ℚ :=
  if col = free then 1 else if s.cleared.contains col then -s.coefficient col free else 0

theorem image_kernelVector {free : Fin n} (hfree : free ∉ s.cleared) (row : Fin n) :
    s.image (s.kernelVector free) row = if row ∈ s.cleared then 0 else s.coefficient row free := by
  have hterm : ∀ col, s.coefficient row col * s.kernelVector free col =
      (if col = free then s.coefficient row free else 0) +
        if col = row ∧ row ∈ s.cleared then -s.coefficient row free else 0 := by
    intro col
    rw [kernelVector]
    by_cases hcol : col = free
    · have hother : ¬(col = row ∧ row ∈ s.cleared) := fun ⟨hsame, hmem⟩ =>
        hfree (hcol ▸ hsame ▸ hmem)
      rw [if_pos hcol, if_pos hcol, if_neg hother, mul_one, add_zero, hcol]
    · rw [if_neg hcol, if_neg hcol, zero_add]
      by_cases hmem : col ∈ s.cleared
      · rw [if_pos (List.contains_iff_mem.mpr hmem), coefficient_of_mem hmem]
        by_cases hrow : row = col
        · rw [if_pos hrow, if_pos ⟨hrow.symm, hrow ▸ hmem⟩, one_mul, hrow]
        · rw [if_neg hrow, if_neg fun h => hrow h.1.symm, zero_mul]
      · have hother : ¬(col = row ∧ row ∈ s.cleared) := fun ⟨hsame, hrow⟩ => hmem (hsame ▸ hrow)
        rw [if_neg (mt List.contains_iff_mem.mp hmem), if_neg hother, mul_zero]
  rw [image, Finset.sum_congr rfl fun col _ => hterm col, Finset.sum_add_distrib,
    Finset.sum_ite_eq' Finset.univ free, if_pos (Finset.mem_univ free)]
  by_cases hrow : row ∈ s.cleared
  · simp [hrow]
  · simp [hrow]

end Elimination

namespace LinearSystem

/-- The coefficients of a system as a matrix. -/
def coefficients (s : LinearSystem ℚ n) : Matrix (Fin n) (Fin n) ℚ :=
  fun row col => (s.matrix.get row).get col

/-- A singular matrix differs from that of the system by less than the tolerance in every place. -/
def NearlySingular (s : LinearSystem ℚ n) : Prop := ∃ other : Matrix (Fin n) (Fin n) ℚ,
  other.det = 0 ∧ ∀ row col, |s.coefficients row col - other row col| < pivotTolerance

theorem holds_iff_mulVec {s : LinearSystem ℚ n} {x : Fin n → ℚ} :
    s.Holds x ↔ s.coefficients.mulVec x = s.source.get := by
  simp only [Holds, excess, sub_eq_zero, funext_iff]
  rfl

/-- A system with one solution has an invertible matrix. -/
theorem isUnit_of_holds_iff {s : LinearSystem ℚ n} {solution : Fin n → ℚ}
    (h : ∀ x, s.Holds x ↔ x = solution) : IsUnit s.coefficients := by
  refine Matrix.mulVec_injective_iff_isUnit.mp fun x y hxy => ?_
  have hsolves : s.coefficients.mulVec solution = s.source.get :=
    holds_iff_mulVec.mp ((h solution).mpr rfl)
  have hshifted : s.Holds (solution + (x - y)) := by
    rw [holds_iff_mulVec, Matrix.mulVec_add, Matrix.mulVec_sub, hxy, sub_self, add_zero, hsolves]
  exact sub_eq_zero.mp (add_eq_left.mp ((h _).mp hshifted))

/-- Where all free coefficients are almost zero, a singular matrix is near. -/
theorem nearlySingular_of_follows {s : LinearSystem ℚ n} {e : Elimination ℚ n}
    (hfollows : Elimination.Follows ⟨s.matrix, s.source, []⟩ e) {free : Fin n}
    (hfree : free ∉ e.cleared)
    (hsmall : ∀ row ∉ e.cleared, |e.coefficient row free| < pivotTolerance) : s.NearlySingular := by
  obtain ⟨order, horder⟩ := hfollows
  let x := e.kernelVector free
  have hone : x free = 1 := if_pos rfl
  have himage : ∀ row, |s.coefficients.mulVec x row| < pivotTolerance := by
    intro row
    have hstart : s.coefficients.mulVec x row =
        Elimination.image ⟨s.matrix, s.source, []⟩ x row := rfl
    have hcleared : ∀ row ∈ e.cleared, e.image x row = 0 := fun row hrow =>
      (Elimination.image_kernelVector hfree row).trans (if_pos hrow)
    rw [hstart, horder x hcleared row, Elimination.image_kernelVector hfree]
    split
    next => rw [abs_zero, pivotTolerance]; norm_num
    next hrow => exact hsmall _ hrow
  -- what the matrix makes of `x` is taken away from the column of the free unknown
  let other : Matrix (Fin n) (Fin n) ℚ :=
    s.coefficients - Matrix.of fun row col => if col = free then s.coefficients.mulVec x row else 0
  refine ⟨other, Matrix.exists_mulVec_eq_zero_iff.mp ⟨x, fun hzero => ?_, ?_⟩, fun row col => ?_⟩
  · rw [hzero] at hone
    exact zero_ne_one hone
  · funext row
    have hcolumn : (Matrix.of fun row col => if col = free then s.coefficients.mulVec x row
        else 0).mulVec x row = s.coefficients.mulVec x row := by
      simp [Matrix.mulVec, dotProduct, hone]
    rw [Matrix.sub_mulVec, Pi.sub_apply, hcolumn, sub_self, Pi.zero_apply]
  · simp only [other, Matrix.sub_apply, Matrix.of_apply, sub_sub_cancel]
    split
    next => exact himage row
    next => rw [abs_zero, pivotTolerance]; norm_num

/-- Elimination fails only for a pivot of almost zero, and where a singular matrix is near. -/
theorem eliminate_failsOnly (s : LinearSystem ℚ n) :
    Except.FailsOnly (fun reason => reason = .zeroPivot ∧ s.NearlySingular)
      (eliminate s.matrix s.source) := by
  let start : Elimination ℚ n := ⟨s.matrix, s.source, []⟩
  -- every round so far has cleared one column
  let invariant (rest : List (Fin n)) (e : Elimination ℚ n) : Prop :=
    e.cleared.length + rest.length = n ∧ Elimination.Follows start e
  have hstep : ∀ i rest (e e' : Elimination ℚ n), invariant (i :: rest) e →
      e.round ⟨0, i.pos⟩ = .ok e' → invariant rest e' := by
    rintro i rest e e' ⟨hlength, hfollows⟩ hround
    obtain ⟨col, _, hcleared, _⟩ := Elimination.round_ok hround
    refine ⟨?_, hfollows.round hround⟩
    rw [hcleared, List.length_cons]
    rw [List.length_cons] at hlength
    omega
  have hinit : invariant (List.finRange n) start := ⟨by simp [start], .refl start⟩
  refine (Except.FailsOnly.foldlM_of hstep (fun i rest e h => ?_) hinit).bind
    fun _ _ => Except.FailsOnly.ok _
  obtain ⟨hlength, hfollows⟩ := h
  have hfree : ∃ col, col ∉ e.cleared := by
    by_contra hall
    have hsubset : Finset.univ ⊆ e.cleared.toFinset := fun col _ =>
      List.mem_toFinset.mpr (not_not.mp fun hcol => hall ⟨col, hcol⟩)
    have hcard := (Finset.card_le_card hsubset).trans e.cleared.toFinset_card_le
    rw [Finset.card_univ, Fintype.card_fin] at hcard
    rw [List.length_cons] at hlength
    omega
  intro reason hreason
  obtain ⟨e', hok⟩ | ⟨hfails, hsmall⟩ := Elimination.round_of_free hfree ⟨0, i.pos⟩
  · cases hok.symm.trans hreason
  · cases hfails.symm.trans hreason
    obtain ⟨free, hfree⟩ := hfree
    refine ⟨rfl, nearlySingular_of_follows hfollows hfree fun row hrow => ?_⟩
    rw [Elimination.coefficient_of_notMem hfree]
    exact hsmall row hrow free hfree

theorem solve_apply (s : LinearSystem ℚ n) : solve s =
    match eliminate s.matrix s.source with
    | .ok solution => .ok () { s with solution }
    | .error reason => .error reason s := by
  rw [solve, EStateM.bind_of_ok (x := get) rfl]
  cases eliminate s.matrix s.source <;> rfl

/-- In exact arithmetic a system that is solved has an invertible matrix, and what is kept is its
solution. A system that is refused stays as it was, and was refused for a pivot of almost
zero, as there is a singular matrix less than the tolerance away. A singular matrix is always
refused. -/
theorem solve_exact (s : LinearSystem ℚ n) :
    (∀ s', solve s = .ok () s' → s' = { s with solution := s'.solution } ∧
      IsUnit s.coefficients ∧ s.coefficients.mulVec s'.solution.get = s.source.get) ∧
    (∀ reason s', solve s = .error reason s' → s' = s ∧ reason = .zeroPivot ∧ s.NearlySingular) ∧
    (¬IsUnit s.coefficients → solve s = .error .zeroPivot s) := by
  rw [solve_apply]
  have hfails := eliminate_failsOnly s
  cases heliminate : eliminate s.matrix s.source with
  | ok solution =>
      have hholds := eliminate_ok heliminate
      have hunit := isUnit_of_holds_iff hholds
      refine ⟨fun s' h => ?_, fun _ _ h => (by cases h), fun h => absurd hunit h⟩
      cases h
      exact ⟨rfl, hunit, holds_iff_mulVec.mp ((hholds _).mpr rfl)⟩
  | error reason =>
      obtain ⟨rfl, hnear⟩ := hfails reason heliminate
      refine ⟨fun _ h => (by cases h), fun _ _ h => ?_, fun _ => rfl⟩
      cases h
      exact ⟨rfl, rfl, hnear⟩

end LinearSystem

end CausalBlocks
