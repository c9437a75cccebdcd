import CausalBlocks.Proofs.Event.Search

/-!
# How the interpolate, truncate and project method narrows its bracket

Each turn leaves a bracket at most as wide as halving would leave it after as many turns, counted
from a start that is up to `n0` halvings wider: where the line crosses is moved toward the middle
until it is near enough. So the method ends within `n0` turns of halving, whatever it is told, and
either it was told zero or it ends with a narrow bracket around a change of sign.
-/

namespace CausalBlocks

open PartialReal

variable {w : Whim}

namespace ItpParameters

/-- Real parameters. -/
def real (p : ItpParameters ℝ) : ItpParameters (PartialReal w) :=
  ⟨.real p.epsilon, .real p.k1, .real p.k2, .real p.n0⟩

/-- What parameters have to be. -/
structure Fit (p : ItpParameters ℝ) : Prop where
  epsilon : 0 < p.epsilon
  k1 : 0 < p.k1
  k2 : 1 ≤ p.k2 ∧ p.k2 ≤ 1 + (1 + √5) / 2
  n0 : 0 ≤ p.n0

/-- The turns that halving takes from a width to a final one, and `n0` more. -/
noncomputable def mostTurns (p : ItpParameters ℝ) (width : ℝ) : ℤ :=
  max 0 ⌈Real.logb 2 (width / (2 * p.epsilon))⌉ + ⌈p.n0⌉

theorem max_le_mostTurns (p : ItpParameters ℝ) (hn0 : 0 ≤ p.n0) (width : ℝ) :
    max 0 (⌈Real.logb 2 (width / (2 * p.epsilon))⌉ + ⌈p.n0⌉) ≤ p.mostTurns width := by
  have hn0 : 0 ≤ ⌈p.n0⌉ := Int.ceil_nonneg hn0
  unfold mostTurns
  omega

end ItpParameters

/-! ### Where the method looks -/

noncomputable section

/-- The sign of the way from a point to the middle. -/
def sideOf (half point : ℝ) : ℝ := if point < half then 1 else if half < point then -1 else 0

/-- A point moved toward the middle by a step, or to the middle if that is nearer. -/
def truncate (half step point : ℝ) : ℝ :=
  if step ≤ |half - point| then point + sideOf half point * step else half

/-- A point that is within a radius of the middle, else the end of the radius on its side. -/
def project (half radius side point : ℝ) : ℝ :=
  if |point - half| ≤ radius then point else half - side * radius

end

/-- What is truncated and projected lies between the middle and where it was, and within the
radius. -/
theorem project_truncate_mem {a c half step radius point : ℝ} (hhalf : half ∈ Set.Icc a c)
    (hpoint : point ∈ Set.Icc a c) (hstep : 0 < step) (hradius : 0 ≤ radius) :
    project half radius (sideOf half point) (truncate half step point) ∈ Set.Icc a c ∧
      |project half radius (sideOf half point) (truncate half step point) - half| ≤ radius := by
  obtain ⟨ha, hc⟩ := hhalf
  obtain ⟨hpa, hpc⟩ := hpoint
  by_cases hfar : step ≤ |half - point|
  · rw [truncate, if_pos hfar, project]
    obtain hlt | rfl | hgt := lt_trichotomy point half
    · rw [abs_of_pos (sub_pos.mpr hlt)] at hfar
      rw [sideOf, if_pos hlt, one_mul, one_mul, abs_of_nonpos (by linarith)]
      split
      · exact ⟨⟨by linarith, by linarith⟩, by rw [abs_of_nonpos] <;> linarith⟩
      · exact ⟨⟨by linarith, by linarith⟩, by rw [abs_of_nonpos] <;> linarith⟩
    · rw [sub_self, abs_zero] at hfar
      exact absurd hstep (not_lt.mpr hfar)
    · rw [abs_of_neg (sub_neg.mpr hgt)] at hfar
      rw [sideOf, if_neg hgt.not_gt, if_pos hgt, neg_one_mul, neg_one_mul,
        abs_of_nonneg (by linarith)]
      split
      · exact ⟨⟨by linarith, by linarith⟩, by rw [abs_of_nonneg] <;> linarith⟩
      · exact ⟨⟨by linarith, by linarith⟩, by rw [abs_of_nonneg] <;> linarith⟩
  · rw [truncate, if_neg hfar, project, sub_self, abs_zero, if_pos hradius, sub_self, abs_zero]
    exact ⟨⟨ha, hc⟩, hradius⟩

namespace Locator

theorem largestExponent_real :
    (largestExponent : PartialReal w) = real (1 + (1 + √5) / 2) := by
  have hfive : (5.0 : PartialReal w) = real 5 := by
    rw [real_scientific]
    norm_num
  simp [largestExponent, hfive, real_sqrt (show (0 : ℝ) ≤ 5 by norm_num)]

/-- The parameters that are accepted are those that fit. -/
theorem makeItp_real_iff {p : ItpParameters ℝ} :
    makeItp (p.real : ItpParameters (PartialReal w)) = .ok (.itp p.real) ↔ p.Fit := by
  simp only [makeItp, ItpParameters.real, largestExponent_real, real_zero, real_one, real_lt,
    real_le]
  constructor
  · intro h
    split at h
    next => cases h
    next hepsilon =>
      split at h
      next => cases h
      next hk1 =>
        split at h
        next => cases h
        next hk2 =>
          split at h
          next => cases h
          next hn0 => exact ⟨not_not.mp hepsilon, not_not.mp hk1, not_not.mp hk2, not_not.mp hn0⟩
  · rintro ⟨hepsilon, hk1, hk2, hn0⟩
    simp [hepsilon, hk1, hk2, hn0]

variable {p : ItpParameters ℝ} {direction : Direction} {a ya c yc reach : ℝ}

/-- The line through the ends crosses in the bracket; if it is almost level, the middle is taken. -/
theorem exists_interpolated (hp : p.Fit) (hle : a ≤ c) (hsides : direction.Separates ya yc) :
    ∃ m ∈ Set.Icc a c, (if |yc - ya| < p.epsilon then real ((c - a) / 2 + a)
      else real (yc * a - ya * c) / real (yc - ya) : PartialReal w) = real m := by
  by_cases hlevel : |yc - ya| < p.epsilon
  · rw [if_pos hlevel]
    exact ⟨_, half_mem hle, rfl⟩
  · have hne : ya ≠ yc := by
      rintro rfl
      apply hlevel
      simpa using hp.epsilon
    rw [if_neg hlevel]
    refine ⟨_, hsides.secant_mem hne hle, ?_⟩
    rw [real_div _ (sub_ne_zero.mpr hne.symm), ← neg_sub (ya * c), ← neg_sub ya, neg_div_neg_eq]

/-- Where the method looks lies in the bracket, and within its reach of both ends. -/
theorem exists_itpPoint (hp : p.Fit) (hlt : a < c) (hsides : direction.Separates ya yc)
    (hreach : c - a ≤ 2 * reach) : ∃ t ∈ Set.Icc a c, t - a ≤ reach ∧ c - t ≤ reach ∧
      itpPoint p.real (Bracket.real a ya c yc : Bracket (PartialReal w)) (real reach) = real t := by
  have hwidth : 0 < c - a := sub_pos.mpr hlt
  have hstep : 0 < p.k1 * (c - a) ^ p.k2 := mul_pos hp.k1 (Real.rpow_pos_of_pos hwidth _)
  have hradius : 0 ≤ reach - (c - a) / 2 := by linarith
  obtain ⟨m, hm, hline⟩ := exists_interpolated (w := w) hp hlt.le hsides
  obtain ⟨hmem, hnear⟩ := project_truncate_mem (half_mem hlt.le) hm hstep hradius
  rw [abs_le] at hnear
  refine ⟨_, hmem, by linarith, by linarith, ?_⟩
  simp only [itpPoint, Bracket.left_real, Bracket.right_real, ItpParameters.real, real_sub,
    real_two, real_half, real_add, real_abs, real_lt, real_mul, hline, real_power hwidth, real_zero,
    real_one, real_neg, real_le, ← apply_ite real, project, truncate, sideOf]
  congr

/-! ### Turns -/

section Turns

variable {α : Type} [Scalar α]

/-- How the method goes on when it is told a value at a time. -/
def turnItp (direction : Direction) (p : ItpParameters α) (most : α) (turns : ℕ) (b : Bracket α)
    (count time value : α) : Search α :=
  if (b.left.value - b.right.value) * value < 0 && crosses direction b.left.value value 0 then
    searchItp direction p most turns { b with right := ⟨time, value⟩ } (count + 1)
  else if 0 < (b.left.value - b.right.value) * value &&
      crosses direction value b.right.value 0 then
    searchItp direction p most turns { b with left := ⟨time, value⟩ } (count + 1)
  else searchItp direction p most turns ⟨⟨time, b.left.value⟩, ⟨time, b.right.value⟩⟩ (count + 1)

theorem searchItp_succ (direction : Direction) (p : ItpParameters α) (most : α) (turns : ℕ)
    (b : Bracket α) (count : α) : searchItp direction p most (turns + 1) b count =
      if 2.0 * p.epsilon < b.right.time - b.left.time then
        let time := itpPoint p b (p.epsilon * Scalar.power 2.0 (most - count))
        .probe time (turnItp direction p most turns b count time)
      else .found ((b.left.time + b.right.time) / 2.0) := rfl

end Turns

/-- A narrow bracket is not searched. -/
theorem searchItp_narrow (turns : ℕ) (most count : PartialReal w) (h : c - a ≤ 2 * p.epsilon) :
    searchItp direction p.real most turns (Bracket.real a ya c yc) count =
      .found (real ((a + c) / 2)) := by
  cases turns with
  | zero => simp [searchItp]
  | succ turns => simp [searchItp, ItpParameters.real, h]

/-- The state of a search: its bracket separates its values, none of which is zero, and is as narrow
as the turns taken make it. Enough turns are left. -/
structure Narrowing (p : ItpParameters ℝ) (direction : Direction) (most : ℝ) (turns : ℕ)
    (a ya c yc count : ℝ) : Prop where
  ordered : a ≤ c
  sides : direction.Separates ya yc
  left_ne : ya ≠ 0
  right_ne : yc ≠ 0
  width : c - a ≤ 2 * (p.epsilon * 2 ^ (most - count))
  turns : most - count ≤ turns

/-- What becomes of a search when it is told a value at a time. -/
inductive Turned (p : ItpParameters ℝ) (direction : Direction) (most : ℝ) (turns : ℕ)
    (a ya c yc count t v : ℝ) : Search (PartialReal w) → Prop
  | hit : v = 0 → Turned p direction most turns a ya c yc count t v (.found (real t))
  | right : Narrowing p direction most turns a ya t v count →
      Turned p direction most turns a ya c yc count t v
        (searchItp direction p.real (real most) turns (Bracket.real a ya t v) (real count))
  | left : Narrowing p direction most turns t v c yc count →
      Turned p direction most turns a ya c yc count t v
        (searchItp direction p.real (real most) turns (Bracket.real t v c yc) (real count))

/-- A value that is on neither side as the method sees it is zero. -/
theorem eq_zero_of_sides {v : ℝ} (hsides : direction.Separates ya yc) (hleft : ya ≠ 0)
    (hright : yc ≠ 0) (hbefore : ¬((ya - yc) * v < 0 ∧ direction.Separates ya v))
    (hafter : ¬(0 < (ya - yc) * v ∧ direction.Separates v yc)) : v = 0 := by
  by_contra hv
  obtain ⟨hya, hyc⟩ | ⟨hya, hyc⟩ := hsides.sides
  · have hya : ya < 0 := lt_of_le_of_ne hya hleft
    have hyc : 0 < yc := lt_of_le_of_ne hyc hright.symm
    have hslope : ya - yc < 0 := by linarith
    obtain hneg | hpos := lt_or_gt_of_ne hv
    · exact hafter ⟨mul_pos_of_neg_of_neg hslope hneg,
        hsides.imp_left (fun _ => hneg.le) fun h => absurd h hya.not_ge⟩
    · exact hbefore ⟨mul_neg_of_neg_of_pos hslope hpos,
        hsides.imp_right (fun h => absurd h hyc.not_ge) fun _ => hpos.le⟩
  · have hya : 0 < ya := lt_of_le_of_ne hya hleft.symm
    have hyc : yc < 0 := lt_of_le_of_ne hyc hright
    have hslope : 0 < ya - yc := by linarith
    obtain hneg | hpos := lt_or_gt_of_ne hv
    · exact hbefore ⟨mul_neg_of_pos_of_neg hslope hneg,
        hsides.imp_right (fun _ => hneg.le) fun h => absurd h hyc.not_ge⟩
    · exact hafter ⟨mul_pos hslope hpos,
        hsides.imp_left (fun h => absurd h hya.not_ge) fun _ => hpos.le⟩

namespace Narrowing

variable {most count : ℝ} {turns : ℕ}

/-- As long as the bracket is wide, there are turns left. -/
theorem lt_most (h : Narrowing p direction most turns a ya c yc count) (hp : p.Fit)
    (hwide : 2 * p.epsilon < c - a) : count < most := by
  by_contra hnot
  have hpower : (2 : ℝ) ^ (most - count) ≤ 1 :=
    Real.rpow_le_one_of_one_le_of_nonpos one_le_two (by linarith)
  have hwidth := h.width
  nlinarith [hp.epsilon]

/-- The reach of a turn is the width of the bracket after it. -/
theorem reach_eq (epsilon most count : ℝ) :
    epsilon * 2 ^ (most - count) = 2 * (epsilon * 2 ^ (most - (count + 1))) := by
  have hpower : (2 : ℝ) ^ (most - count) = 2 ^ (most - (count + 1)) * 2 := by
    rw [← Real.rpow_add_one two_ne_zero]
    ring_nf
  rw [hpower]
  ring

/-- The right end of the bracket moves to where the method looked. -/
theorem move_right {t v : ℝ} (h : Narrowing p direction most (turns + 1) a ya c yc count)
    (ht : a ≤ t) (hnear : t - a ≤ p.epsilon * 2 ^ (most - count))
    (hsides : direction.Separates ya v) (hv : v ≠ 0) :
    Narrowing p direction most turns a ya t v (count + 1) where
  ordered := ht
  sides := hsides
  left_ne := h.left_ne
  right_ne := hv
  width := hnear.trans_eq (reach_eq _ _ _)
  turns := by
    have hturns := h.turns
    push_cast at hturns
    linarith

/-- The left end of the bracket moves to where the method looked. -/
theorem move_left {t v : ℝ} (h : Narrowing p direction most (turns + 1) a ya c yc count)
    (ht : t ≤ c) (hnear : c - t ≤ p.epsilon * 2 ^ (most - count))
    (hsides : direction.Separates v yc) (hv : v ≠ 0) :
    Narrowing p direction most turns t v c yc (count + 1) where
  ordered := ht
  sides := hsides
  left_ne := hv
  right_ne := h.right_ne
  width := hnear.trans_eq (reach_eq _ _ _)
  turns := by
    have hturns := h.turns
    push_cast at hturns
    linarith

theorem reach_real : (p.real.epsilon * Scalar.power 2.0 (real most - real count) : PartialReal w) =
    real (p.epsilon * 2 ^ (most - count)) := by
  rw [real_sub, real_two, real_power two_pos]
  exact real_mul _ _

/-- A wide bracket is searched where the method looks. -/
theorem probes (h : Narrowing p direction most (turns + 1) a ya c yc count) (hp : p.Fit)
    (hwide : 2 * p.epsilon < c - a) : ∃ t ∈ Set.Icc a c,
      t - a ≤ p.epsilon * 2 ^ (most - count) ∧ c - t ≤ p.epsilon * 2 ^ (most - count) ∧
      searchItp direction p.real (real most) (turns + 1) (Bracket.real a ya c yc) (real count) =
        .probe (real t) (turnItp direction p.real (real most : PartialReal w) turns
          (Bracket.real a ya c yc) (real count) (real t)) := by
  have hlt : a < c := by linarith [hp.epsilon]
  obtain ⟨t, ht, hleft, hright, hpoint⟩ := exists_itpPoint (w := w) hp hlt h.sides h.width
  refine ⟨t, ht, hleft, hright, ?_⟩
  rw [searchItp_succ, reach_real, hpoint, if_pos]
  simpa [ItpParameters.real] using hwide

theorem falls_iff {v : ℝ} : (decide ((real ya - real yc) * real v < (0 : PartialReal w)) &&
    crosses direction (real ya) (real v) (0 : PartialReal w)) = true ↔
      (ya - yc) * v < 0 ∧ direction.Separates ya v := by
  rw [Bool.and_eq_true, decide_eq_true_iff, Direction.crosses_real_iff]
  rfl

theorem rises_iff {v : ℝ} : (decide ((0 : PartialReal w) < (real ya - real yc) * real v) &&
    crosses direction (real v) (real yc) (0 : PartialReal w)) = true ↔
      0 < (ya - yc) * v ∧ direction.Separates v yc := by
  rw [Bool.and_eq_true, decide_eq_true_iff, Direction.crosses_real_iff]
  rfl

/-- What the method is told moves an end of its bracket, unless it is zero. -/
theorem turned {t : ℝ} (h : Narrowing p direction most (turns + 1) a ya c yc count)
    (hp : p.Fit) (ht : t ∈ Set.Icc a c) (hleft : t - a ≤ p.epsilon * 2 ^ (most - count))
    (hright : c - t ≤ p.epsilon * 2 ^ (most - count)) (v : ℝ) :
    Turned p direction most turns a ya c yc (count + 1) t v
      (turnItp direction p.real (real most : PartialReal w) turns (Bracket.real a ya c yc)
        (real count) (real t) (real v)) := by
  unfold turnItp
  split
  next hbefore =>
    obtain ⟨hslope, hsides⟩ := falls_iff.mp hbefore
    refine .right (h.move_right ht.1 hleft hsides ?_)
    rintro rfl
    simp at hslope
  next hbefore =>
    split
    next hafter =>
      obtain ⟨hslope, hsides⟩ := rises_iff.mp hafter
      refine .left (h.move_left ht.2 hright hsides ?_)
      rintro rfl
      simp at hslope
    next hafter =>
      -- the bracket has shrunk to the time of a zero
      have hv := eq_zero_of_sides h.sides h.left_ne h.right_ne (mt falls_iff.mpr hbefore)
        (mt rises_iff.mpr hafter)
      have hpoint : t - t ≤ 2 * p.epsilon := by linarith [hp.epsilon]
      have hfound : searchItp direction p.real (real most) turns (Bracket.real t ya t yc)
          (real (count + 1)) = (.found (real ((t + t) / 2)) : Search (PartialReal w)) :=
        searchItp_narrow turns _ _ hpoint
      rw [add_self_div_two] at hfound
      change Turned p direction most turns a ya c yc (count + 1) t v
        (searchItp direction p.real (real most) turns (Bracket.real t ya t yc) (real (count + 1)))
      rw [hfound]
      exact .hit hv

/-- One turn: the bracket is narrow and its middle is found, or the method looks inside the bracket
and what it is told there moves an end, unless it is zero. -/
theorem step (h : Narrowing p direction most turns a ya c yc count) (hp : p.Fit) :
    (c - a ≤ 2 * p.epsilon ∧
      searchItp direction p.real (real most) turns (Bracket.real a ya c yc) (real count) =
        (.found (real ((a + c) / 2)) : Search (PartialReal w))) ∨
    ∃ t ∈ Set.Icc a c, ∃ turns' < turns, ∃ next : PartialReal w → Search (PartialReal w),
      count < most ∧
      searchItp direction p.real (real most) turns (Bracket.real a ya c yc) (real count) =
        .probe (real t) next ∧
      ∀ v, Turned p direction most turns' a ya c yc (count + 1) t v (next (real v)) := by
  by_cases hnarrow : c - a ≤ 2 * p.epsilon
  · exact .inl ⟨hnarrow, searchItp_narrow _ _ _ hnarrow⟩
  right
  rw [not_le] at hnarrow
  have hcount := h.lt_most hp hnarrow
  cases turns with
  | zero =>
      have hturns := h.turns
      rw [Nat.cast_zero] at hturns
      linarith
  | succ turns =>
      obtain ⟨t, ht, hleft, hright, hlooks⟩ := h.probes (w := w) hp hnarrow
      exact ⟨t, ht, turns, turns.lt_succ_self, _, hcount, hlooks, h.turned hp ht hleft hright⟩

/-- The method stays in its bracket. -/
theorem within (h : Narrowing p direction most turns a ya c yc count) (hp : p.Fit) :
    (searchItp direction p.real (real most : PartialReal w) turns (Bracket.real a ya c yc)
      (real count)).Within a c := by
  induction turns using Nat.strong_induction_on generalizing a ya c yc count with
  | _ turns ih =>
    obtain ⟨-, hfound⟩ | ⟨t, ht, turns', hless, next, -, hlooks, hturned⟩ := h.step (w := w) hp
    · rw [hfound]
      apply Search.Within.found
      constructor <;> linarith [h.ordered]
    · rw [hlooks]
      apply Search.Within.probe ht
      intro v
      generalize hafter : next (real v) = after
      cases hafter ▸ hturned v with
      | hit => exact .found ht
      | right hnext => exact (ih turns' hless hnext).mono le_rfl ht.2
      | left hnext => exact (ih turns' hless hnext).mono ht.1 le_rfl

end Narrowing

/-! ### Whole searches -/

/-- A time that is near the two ends of a bracket around a change of sign, or that has the value
zero. The ends are samples that the search knows: where it started, or what it was told. -/
def Settled (p : ItpParameters ℝ) (direction : Direction) (a ya c yc : ℝ)
    (asked : List (Sample (PartialReal w))) (time : PartialReal w) : Prop :=
  ⟨time, real 0⟩ ∈ asked ∨
    ∃ l yl r yr t : ℝ, ⟨real l, real yl⟩ ∈ ⟨real a, real ya⟩ :: asked ∧
      ⟨real r, real yr⟩ ∈ ⟨real c, real yc⟩ :: asked ∧
      crosses direction (real yl) (real yr) (0 : PartialReal w) = true ∧
      time = real t ∧ t ∈ Set.Icc l r ∧ t - l ≤ p.epsilon ∧ r - t ≤ p.epsilon

namespace Settled

variable {asked : List (Sample (PartialReal w))} {time : PartialReal w} {t v : ℝ}

/-- What was settled after the right end moved was settled before. -/
theorem of_right (h : Settled p direction a ya t v asked time) :
    Settled p direction a ya c yc (⟨real t, real v⟩ :: asked) time := by
  obtain hzero | ⟨l, yl, r, yr, x, hl, hr, hrest⟩ := h
  · exact .inl (List.mem_cons_of_mem _ hzero)
  · refine .inr ⟨l, yl, r, yr, x, ?_, List.mem_cons_of_mem _ hr, hrest⟩
    exact List.cons_subset_cons _ (List.subset_cons_self _ _) hl

/-- What was settled after the left end moved was settled before. -/
theorem of_left (h : Settled p direction t v c yc asked time) :
    Settled p direction a ya c yc (⟨real t, real v⟩ :: asked) time := by
  obtain hzero | ⟨l, yl, r, yr, x, hl, hr, hrest⟩ := h
  · exact .inl (List.mem_cons_of_mem _ hzero)
  · refine .inr ⟨l, yl, r, yr, x, List.mem_cons_of_mem _ hl, ?_, hrest⟩
    exact List.cons_subset_cons _ (List.subset_cons_self _ _) hr

end Settled

namespace Narrowing

variable {most count : ℝ} {turns : ℕ} {asked : List (Sample (PartialReal w))}
  {rest : Search (PartialReal w)}

/-- The middle of a narrow bracket is near both of its ends. -/
theorem settled (h : Narrowing p direction most turns a ya c yc count)
    (hnarrow : c - a ≤ 2 * p.epsilon) :
    Settled p direction a ya c yc asked (real ((a + c) / 2)) := by
  have hordered := h.ordered
  refine .inr ⟨a, ya, c, yc, _, List.mem_cons_self, List.mem_cons_self,
    Direction.crosses_real_iff.mpr h.sides, rfl, ⟨?_, ?_⟩, ?_, ?_⟩ <;> linarith

/-- The method asks as often as halvings are left at most, and what it finds is settled. -/
theorem answered (h : Narrowing p direction most turns a ya c yc count) (hp : p.Fit)
    (hasked : (searchItp direction p.real (real most : PartialReal w) turns
      (Bracket.real a ya c yc) (real count)).Answered asked rest)
    (htold : Search.ToldReal asked) :
    (asked.length : ℤ) ≤ max 0 ⌈most - count⌉ ∧
      ∀ time, rest = .found time → Settled p direction a ya c yc asked time := by
  induction turns using Nat.strong_induction_on generalizing a ya c yc count asked with
  | _ turns ih =>
    obtain ⟨hnarrow, hfound⟩ | ⟨t, ht, turns', hless, next, hcount, hlooks, hturned⟩ :=
      h.step (w := w) hp
    · rw [hfound] at hasked
      cases hasked
      refine ⟨le_max_left _ _, ?_⟩
      rintro _ ⟨⟩
      exact h.settled hnarrow
    · rw [hlooks] at hasked
      cases hasked with
      | nothing => exact ⟨le_max_left _ _, nofun⟩
      | next hasked =>
          obtain ⟨⟨v, rfl : _ = real v⟩, hothers⟩ := List.forall_mem_cons.mp htold
          have hleft : 0 < ⌈most - count⌉ := Int.ceil_pos.mpr (sub_pos.mpr hcount)
          have hturn : ⌈most - (count + 1)⌉ = ⌈most - count⌉ - 1 := by
            rw [← sub_sub, Int.ceil_sub_one]
          generalize hafter : next (real v) = after at hasked
          cases hafter ▸ hturned v with
          | hit hzero =>
              subst hzero
              cases hasked
              refine ⟨by simp; omega, ?_⟩
              rintro _ ⟨⟩
              exact .inl List.mem_cons_self
          | right hnarrowing =>
              obtain ⟨hlength, hsettled⟩ := ih turns' hless hnarrowing hasked hothers
              rw [hturn] at hlength
              refine ⟨by simp; omega, fun time hrest => ?_⟩
              exact (hsettled time hrest).of_right
          | left hnarrowing =>
              obtain ⟨hlength, hsettled⟩ := ih turns' hless hnarrowing hasked hothers
              rw [hturn] at hlength
              refine ⟨by simp; omega, fun time hrest => ?_⟩
              exact (hsettled time hrest).of_left

/-- The state at the start: halving takes the ceiling of the logarithm of the width. -/
theorem start (hp : p.Fit) (hlt : a < c) (hsides : direction.Separates ya yc) (hya : ya ≠ 0)
    (hyc : yc ≠ 0) :
    Narrowing p direction (⌈Real.logb 2 ((c - a) / (2 * p.epsilon))⌉ + p.n0)
      (⌊⌈Real.logb 2 ((c - a) / (2 * p.epsilon))⌉ + p.n0⌋.toNat + spareTurns) a ya c yc 0 where
  ordered := hlt.le
  sides := hsides
  left_ne := hya
  right_ne := hyc
  width := by
    have hepsilon := hp.epsilon
    have hwidth : 0 < (c - a) / (2 * p.epsilon) := by
      apply div_pos (sub_pos.mpr hlt)
      linarith
    have hlog : Real.logb 2 ((c - a) / (2 * p.epsilon)) ≤
        ⌈Real.logb 2 ((c - a) / (2 * p.epsilon))⌉ + p.n0 - 0 := by
      linarith [Int.le_ceil (Real.logb 2 ((c - a) / (2 * p.epsilon))), hp.n0]
    have hhalvings := (Real.logb_le_iff_le_rpow one_lt_two hwidth).mp hlog
    rw [div_le_iff₀ (by linarith)] at hhalvings
    linarith
  turns := by
    set most := ⌈Real.logb 2 ((c - a) / (2 * p.epsilon))⌉ + p.n0
    have hfloor := Int.lt_floor_add_one most
    have hnat : (⌊most⌋ : ℝ) ≤ ⌊most⌋.toNat := by exact_mod_cast Int.self_le_toNat _
    have hspare : (1 : ℝ) ≤ spareTurns := Nat.one_le_cast.mpr Nat.one_le_two_pow
    rw [Nat.cast_add]
    linarith

end Narrowing

/-- The search from the start, if the line has no zero there. -/
theorem searchItpFrom_real (hp : p.Fit) (hlt : a < c) (hya : ya ≠ 0) (hyc : yc ≠ 0) :
    searchItpFrom direction p.real (Bracket.real a ya c yc : Bracket (PartialReal w)) =
      searchItp direction p.real (real (⌈Real.logb 2 ((c - a) / (2 * p.epsilon))⌉ + p.n0))
        (⌊⌈Real.logb 2 ((c - a) / (2 * p.epsilon))⌉ + p.n0⌋.toNat + spareTurns)
        (Bracket.real a ya c yc) (real 0) := by
  have htwice : 0 < 2 * p.epsilon := mul_pos two_pos hp.epsilon
  have hwidth : 0 < (c - a) / (2 * p.epsilon) := div_pos (sub_pos.mpr hlt) htwice
  simp [searchItpFrom, hya, hyc, ItpParameters.real, real_div _ htwice.ne', real_log2 hwidth]

/-- The search from the start stays in its bracket, also if that is one time only. -/
theorem searchItpFrom_within (hp : p.Fit) (hle : a ≤ c) (hsides : direction.Separates ya yc) :
    (searchItpFrom direction p.real
      (Bracket.real a ya c yc : Bracket (PartialReal w))).Within a c := by
  by_cases hya : ya = 0
  · simpa [searchItpFrom, hya] using Search.Within.found (Set.left_mem_Icc.mpr hle)
  by_cases hyc : yc = 0
  · simpa [searchItpFrom, hya, hyc] using Search.Within.found (Set.right_mem_Icc.mpr hle)
  obtain hlt | rfl := hle.lt_or_eq
  · rw [searchItpFrom_real hp hlt hya hyc]
    exact (Narrowing.start hp hlt hsides hya hyc).within hp
  · have hnarrow : a - a ≤ 2 * p.epsilon := by linarith [hp.epsilon]
    simp only [searchItpFrom, Bracket.left_real, Bracket.right_real, real_zero, real_beq, hya, hyc,
      if_false, searchItp_narrow _ _ _ hnarrow, add_self_div_two]
    exact .found (Set.left_mem_Icc.mpr le_rfl)

/-- The search from the start asks as often as halving does and `n0` times more at most, and what it
finds is settled. -/
theorem searchItpFrom_answered (hp : p.Fit) (hlt : a < c) (hsides : direction.Separates ya yc)
    (hya : ya ≠ 0) (hyc : yc ≠ 0) {asked : List (Sample (PartialReal w))}
    {rest : Search (PartialReal w)}
    (hasked : (searchItpFrom direction p.real (Bracket.real a ya c yc)).Answered asked rest)
    (htold : Search.ToldReal asked) :
    (asked.length : ℤ) ≤ p.mostTurns (c - a) ∧
      ∀ time, rest = .found time → Settled p direction a ya c yc asked time := by
  rw [searchItpFrom_real hp hlt hya hyc] at hasked
  obtain ⟨hlength, hsettled⟩ :=
    (Narrowing.start hp hlt hsides hya hyc).answered hp hasked htold
  rw [sub_zero, Int.ceil_intCast_add] at hlength
  exact ⟨hlength.trans (p.max_le_mostTurns hp.n0 (c - a)), hsettled⟩

end Locator

end CausalBlocks
