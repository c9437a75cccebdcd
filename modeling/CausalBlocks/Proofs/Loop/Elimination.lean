import Mathlib.Algebra.BigOperators.Ring.Finset
import Mathlib.Algebra.BigOperators.Fin
import Mathlib.Data.Fintype.BigOperators
import Mathlib.Tactic.FieldSimp
import Mathlib.Tactic.NormNum
import CausalBlocks.Loop.System
import CausalBlocks.Proofs.Outcome
import CausalBlocks.Proofs.Scalar.Rational

/-!
# Elimination in exact arithmetic

A round of elimination keeps the solutions of a system. When all columns have been
cleared the right-hand side is the one solution, so elimination that ends well has found
it, and there is no other.
-/

namespace CausalBlocks

variable {n : Nat}

/-! ### Entries of a vector -/

theorem get_set {α : Type} (xs : Vector α n) (i k : Fin n) (value : α) :
    (xs.set i value i.isLt).get k = if k = i then value else xs.get k := by
  change (xs.set i value)[k] = if k = i then value else xs[k]
  simp only [Fin.getElem_fin, Vector.getElem_set, eq_comm (a := k), Fin.ext_iff]

theorem get_swap {α : Type} (xs : Vector α n) (i j k : Fin n) :
    (xs.swap i j i.isLt j.isLt).get k = xs.get (Equiv.swap i j k) := by
  change (xs.swap i j)[k] = xs[Equiv.swap i j k]
  simp only [Fin.getElem_fin, Vector.getElem_swap, Equiv.swap_apply_def, Fin.val_inj]
  split
  · rfl
  · split <;> rfl

theorem ofFn_get {α : Type} (xs : Vector α n) : List.ofFn xs.get = xs.toList := by
  refine List.ext_getElem (by simp) fun i _ _ => ?_
  rw [List.getElem_ofFn, Vector.getElem_toList]
  rfl

namespace Elimination

variable {s s' : Elimination ℚ n} {x : Fin n → ℚ} {row col : Fin n}

/-- The coefficient of an unknown in an equation. The place of a cleared column holds
something else: its unknown stands in one equation alone. -/
def coefficient (s : Elimination ℚ n) (row col : Fin n) : ℚ :=
  if s.cleared.contains col then if row = col then 1 else 0 else (s.matrix.get row).get col

theorem coefficient_of_mem (h : col ∈ s.cleared) (row : Fin n) :
    s.coefficient row col = if row = col then 1 else 0 :=
  if_pos (List.contains_iff_mem.mpr h)

theorem coefficient_of_notMem (h : col ∉ s.cleared) (row : Fin n) :
    s.coefficient row col = (s.matrix.get row).get col :=
  if_neg fun hmem => h (List.contains_iff_mem.mp hmem)

/-- By how much the values of the unknowns miss an equation. -/
def excess (s : Elimination ℚ n) (x : Fin n → ℚ) (row : Fin n) : ℚ :=
  ∑ col, s.coefficient row col * x col - s.source.get row

/-- Values of the unknowns satisfy all equations. -/
def Holds (s : Elimination ℚ n) (x : Fin n → ℚ) : Prop := ∀ row, s.excess x row = 0

/-! ### Exchanging two equations -/

theorem coefficient_swap (hrow : row ∉ s.cleared) (hcol : col ∉ s.cleared) (r c : Fin n) :
    (s.swap row col).coefficient r c = s.coefficient (Equiv.swap row col r) c := by
  by_cases hc : c ∈ s.cleared
  · have hcr : c ≠ row := fun heq => hrow (heq ▸ hc)
    have hcc : c ≠ col := fun heq => hcol (heq ▸ hc)
    have hfixed : Equiv.swap row col r = c ↔ r = c := by
      rw [Equiv.swap_apply_eq_iff, Equiv.swap_apply_of_ne_of_ne hcr hcc]
    have hswap : c ∈ (s.swap row col).cleared := hc
    rw [coefficient_of_mem hc, coefficient_of_mem hswap]
    simp only [hfixed]
  · have hswap : c ∉ (s.swap row col).cleared := hc
    rw [coefficient_of_notMem hc, coefficient_of_notMem hswap]
    exact congrArg (Vector.get · c) (get_swap s.matrix row col r)

theorem excess_swap (hrow : row ∉ s.cleared) (hcol : col ∉ s.cleared) (r : Fin n) :
    (s.swap row col).excess x r = s.excess x (Equiv.swap row col r) := by
  have hsource : (s.swap row col).source.get r = s.source.get (Equiv.swap row col r) :=
    get_swap s.source row col r
  simp only [excess, coefficient_swap hrow hcol, hsource]

theorem holds_swap (hrow : row ∉ s.cleared) (hcol : col ∉ s.cleared) :
    (s.swap row col).Holds x ↔ s.Holds x := by
  simp only [Holds, excess_swap hrow hcol]
  exact (Equiv.swap row col).forall_congr_right (q := fun r => s.excess x r = 0)

/-! ### Clearing a column -/

theorem coefficient_clear (hcol : col ∉ s.cleared) (hpivot : s.coefficient col col ≠ 0)
    (r c : Fin n) : (s.clear col).coefficient r c =
      if r = col then s.coefficient col c * (1 / s.coefficient col col)
      else s.coefficient r c -
        s.coefficient col c * (1 / s.coefficient col col) * s.coefficient r col := by
  have hcleared : (s.clear col).cleared = col :: s.cleared := rfl
  by_cases hc : c = col
  · subst hc
    rw [coefficient_of_mem (hcleared ▸ List.mem_cons_self)]
    split
    · exact (mul_one_div_cancel hpivot).symm
    · rw [mul_one_div_cancel hpivot, one_mul, sub_self]
  · by_cases hmem : c ∈ s.cleared
    · rw [coefficient_of_mem (hcleared ▸ List.mem_cons_of_mem col hmem)]
      by_cases hr : r = col
      · simp [coefficient_of_mem hmem, hr, Ne.symm hc]
      · simp [coefficient_of_mem hmem, hr, Ne.symm hc]
    · have hnot : c ∉ (s.clear col).cleared := by
        rw [hcleared, List.mem_cons]
        exact not_or.mpr ⟨hc, hmem⟩
      have hval : (col : Nat) ≠ c := fun heq => hc (Fin.ext heq.symm)
      simp only [coefficient_of_notMem hnot, coefficient_of_notMem hmem, coefficient_of_notMem hcol]
      change (s.clear col).matrix[r][c] =
        if r = col then s.matrix[col][c] * (1 / s.matrix[col][col])
        else s.matrix[r][c] - s.matrix[col][c] * (1 / s.matrix[col][col]) * s.matrix[r][col]
      by_cases hr : r = col
      · simp [clear, hr, hval]
      · simp [clear, hr, hval]

theorem excess_clear (hcol : col ∉ s.cleared) (hpivot : s.coefficient col col ≠ 0) (r : Fin n) :
    (s.clear col).excess x r =
      if r = col then s.excess x col * (1 / s.coefficient col col)
      else s.excess x r - s.excess x col * (1 / s.coefficient col col) * s.coefficient r col := by
  have hsource : (s.clear col).source.get r =
      if r = col then s.source.get col * (1 / s.coefficient col col)
      else s.source.get r -
        s.source.get col * (1 / s.coefficient col col) * s.coefficient r col := by
    rw [coefficient_of_notMem hcol, coefficient_of_notMem hcol]
    change (s.clear col).source[r] =
      if r = col then s.source[col] * (1 / s.matrix[col][col])
      else s.source[r] - s.source[col] * (1 / s.matrix[col][col]) * s.matrix[r][col]
    simp [clear]
  simp only [excess, coefficient_clear hcol hpivot, hsource]
  split
  · rw [sub_mul, Finset.sum_mul]
    congr 1
    exact Finset.sum_congr rfl fun c _ => by ring
  · have hsum : ∑ c, (s.coefficient r c - s.coefficient col c * (1 / s.coefficient col col) *
        s.coefficient r col) * x c = ∑ c, s.coefficient r c * x c -
          (∑ c, s.coefficient col c * x c) * (1 / s.coefficient col col) * s.coefficient r col := by
      rw [Finset.sum_mul, Finset.sum_mul, ← Finset.sum_sub_distrib]
      exact Finset.sum_congr rfl fun c _ => by ring
    rw [hsum]
    ring

theorem holds_clear (hcol : col ∉ s.cleared) (hpivot : s.coefficient col col ≠ 0) :
    (s.clear col).Holds x ↔ s.Holds x := by
  constructor
  · intro h r
    -- the equation that was divided holds, so what it took from the others is nothing
    have hhere : s.excess x col = 0 := by
      have hzero := h col
      rw [excess_clear hcol hpivot, if_pos rfl] at hzero
      exact (mul_eq_zero.mp hzero).resolve_right (one_div_ne_zero hpivot)
    by_cases hr : r = col
    · rw [hr, hhere]
    · have hzero := h r
      rwa [excess_clear hcol hpivot, if_neg hr, hhere, zero_mul, zero_mul, sub_zero] at hzero
  · intro h r
    rw [excess_clear hcol hpivot, h col, h r]
    simp

/-! ### Rounds -/

/-- A pivot is looked for among the rows and columns not used yet. -/
theorem pivot_free {first : Fin n} (h : (s.pivot first).2 ∉ s.cleared) :
    (s.pivot first).1 ∉ s.cleared := by
  let free (place : Fin n × Fin n) : Prop := place.1 ∉ s.cleared ∧ place.2 ∉ s.cleared
  let places := s.free.flatMap fun row => s.free.map fun col => (row, col)
  have hplaces : ∀ place ∈ places, free place := by
    intro place hplace
    obtain ⟨row, hrow, hplace⟩ := List.mem_flatMap.mp hplace
    obtain ⟨col, hcol, rfl⟩ := List.mem_map.mp hplace
    simp only [Elimination.free, List.mem_filter, List.mem_finRange, true_and, decide_eq_true_eq]
      at hrow hcol
    exact ⟨hrow, hcol⟩
  let larger (best : ℚ × Fin n × Fin n) (place : Fin n × Fin n) : ℚ × Fin n × Fin n :=
    let size := Scalar.abs s.matrix[place.1][place.2]
    if best.1 ≤ size then (size, place) else best
  have hbest : (places.foldl larger (0, first, first)).2 = (first, first) ∨
      free (places.foldl larger (0, first, first)).2 := by
    refine List.foldlRecOn (motive := fun best => best.2 = (first, first) ∨ free best.2) places
      larger ?_ fun best hbest place hplace => ?_
    · exact .inl rfl
    by_cases hle : best.1 ≤ Scalar.abs s.matrix[place.1][place.2]
    · simp only [larger, if_pos hle]
      exact .inr (hplaces place hplace)
    · simp only [larger, if_neg hle]
      exact hbest
  have hpivot : s.pivot first = (places.foldl larger (0, first, first)).2 := rfl
  rcases hbest with hfirst | hfree
  · rw [hpivot, hfirst] at h ⊢
    exact h
  · rw [hpivot]
    exact hfree.1

theorem ne_zero_of_not_lt_tolerance {y : ℚ} (h : ¬Scalar.abs y < pivotTolerance) : y ≠ 0 := by
  rintro rfl
  apply h
  change (if (0 : ℚ) < 0 then -0 else 0) < (1e-15 : ℚ)
  norm_num

/-- A round clears one more column and keeps the solutions. -/
theorem round_ok {first : Fin n} (h : s.round first = .ok s') :
    ∃ col, col ∉ s.cleared ∧ s'.cleared = col :: s.cleared ∧ ∀ x, s'.Holds x ↔ s.Holds x := by
  rw [round] at h
  dsimp only at h
  split at h
  next => cases h
  next hcol =>
    split at h
    next => cases h
    next htolerance =>
      cases h
      have hrow := pivot_free hcol
      refine ⟨_, hcol, rfl, fun x => ?_⟩
      have hswap : (s.pivot first).2 ∉ (s.swap (s.pivot first).1 (s.pivot first).2).cleared := hcol
      rw [holds_clear hswap ?_, holds_swap hrow hcol]
      rw [coefficient_of_notMem hswap]
      exact ne_zero_of_not_lt_tolerance htolerance

/-- When every column has been cleared, the right-hand side is the only solution. -/
theorem holds_iff_of_cleared (h : ∀ col, col ∈ s.cleared) :
    s.Holds x ↔ x = s.source.get := by
  have hexcess : ∀ row, s.excess x row = x row - s.source.get row := by
    intro row
    simp [excess, coefficient_of_mem (h _)]
  simp only [Holds, hexcess, sub_eq_zero, funext_iff]

end Elimination

namespace LinearSystem

/-- By how much the values of the unknowns miss an equation. -/
def excess (s : LinearSystem ℚ n) (x : Fin n → ℚ) (row : Fin n) : ℚ :=
  ∑ col, (s.matrix.get row).get col * x col - s.source.get row

/-- Values of the unknowns satisfy all equations. -/
def Holds (s : LinearSystem ℚ n) (x : Fin n → ℚ) : Prop := ∀ row, s.excess x row = 0

/-- Elimination that ends well has found the one solution. -/
theorem eliminate_ok {s : LinearSystem ℚ n} {solution : Vector ℚ n}
    (h : eliminate s.matrix s.source = .ok solution) (x : Fin n → ℚ) :
    s.Holds x ↔ x = solution.get := by
  obtain ⟨last, hrounds, hlast⟩ := Except.bind_eq_ok.mp h
  cases hlast
  -- with every round one more column is cleared
  let invariant (rest : List (Fin n)) (e : Elimination ℚ n) : Prop :=
    e.cleared.Nodup ∧ e.cleared.length + rest.length = n ∧ (e.Holds x ↔ s.Holds x)
  have hstep : ∀ i rest (e e' : Elimination ℚ n), invariant (i :: rest) e →
      e.round ⟨0, i.pos⟩ = .ok e' → invariant rest e' := by
    rintro i rest e e' ⟨hnodup, hlength, hholds⟩ hround
    obtain ⟨col, hcol, hcleared, hsame⟩ := Elimination.round_ok hround
    refine ⟨hcleared ▸ List.nodup_cons.mpr ⟨hcol, hnodup⟩, ?_, (hsame x).trans hholds⟩
    rw [hcleared, List.length_cons]
    rw [List.length_cons] at hlength
    omega
  have hinit : invariant (List.finRange n) ⟨s.matrix, s.source, []⟩ := by
    refine ⟨List.nodup_nil, by simp, ?_⟩
    simp [Elimination.Holds, Elimination.excess, Elimination.coefficient, Holds, excess]
  obtain ⟨hnodup, hlength, hholds⟩ := Except.foldlM_ok hstep hinit hrounds
  have hall : ∀ col, col ∈ last.cleared := by
    have hcard : last.cleared.toFinset.card = Fintype.card (Fin n) := by
      rw [List.toFinset_card_of_nodup hnodup, Fintype.card_fin]
      simpa using hlength
    intro col
    rw [← List.mem_toFinset, Finset.eq_univ_of_card _ hcard]
    exact Finset.mem_univ col
  rw [← hholds, Elimination.holds_iff_of_cleared hall]

/-- The solution that is kept is the one that elimination found. -/
theorem solve_ok {s s' : LinearSystem ℚ n} (h : solve s = .ok () s') :
    eliminate s.matrix s.source = .ok s'.solution := by
  simp only [solve, EStateM.bind_eq_ok, EStateM.get_eq_ok] at h
  obtain ⟨_, s, ⟨rfl, rfl⟩, h⟩ := h
  cases heliminate : eliminate s.matrix s.source with
  | error reason =>
      rw [heliminate] at h
      cases EStateM.throw_eq_ok.mp h
  | ok solution =>
      rw [heliminate] at h
      cases h
      rfl

end LinearSystem

end CausalBlocks
