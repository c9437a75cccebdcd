import CausalBlocks.Event.Locator
import CausalBlocks.Proofs.Scalar.PartialReal

/-!
# Searches in real arithmetic

A search asks about times and is told values, whatever they are. The searches that look where
a line crosses, in the middle, or by false position stay inside their bracket: a bracket that
separates its values from each other keeps doing so, and a line between two such values crosses
between their times.
-/

namespace CausalBlocks

open PartialReal

variable {α : Type} {w : Whim}

/-! ### Questions and answers -/

namespace Search

/-- The time that a search has found, or that it asks about. -/
def time : Search α → α
  | found time => time
  | probe time _ => time

/-- A search that was told some values: the times that it asked about, each with the value that
it was told, and what is left of it. -/
inductive Answered : Search α → List (Sample α) → Search α → Prop
  | nothing (s : Search α) : Answered s [] s
  | next {time value : α} {next : α → Search α} {asked : List (Sample α)} {rest : Search α} :
      Answered (next value) asked rest → Answered (.probe time next) (⟨time, value⟩ :: asked) rest

/-- The values that a search was told are real ones. -/
def ToldReal (asked : List (Sample (PartialReal w))) : Prop :=
  ∀ sample ∈ asked, ∃ v : ℝ, sample.value = real v

/-- Whatever real values a search is told, each time that it asks about and the time that it finds
lie between two real ones. -/
def Within (s : Search (PartialReal w)) (first last : ℝ) : Prop :=
  ∀ asked rest, s.Answered asked rest → ToldReal asked →
    ∃ t ∈ Set.Icc first last, rest.time = real t

namespace Within

variable {first last t : ℝ} {s : Search (PartialReal w)}
  {next : PartialReal w → Search (PartialReal w)}

theorem found (ht : t ∈ Set.Icc first last) :
    (Search.found (real t) : Search (PartialReal w)).Within first last := by
  rintro _ _ ⟨⟩ _
  exact ⟨t, ht, rfl⟩

theorem probe (ht : t ∈ Set.Icc first last) (hnext : ∀ v : ℝ, (next (real v)).Within first last) :
    (Search.probe (real t) next).Within first last := by
  intro asked rest h htold
  cases h with
  | nothing => exact ⟨t, ht, rfl⟩
  | next h =>
      obtain ⟨⟨v, rfl : _ = real v⟩, hrest⟩ := List.forall_mem_cons.mp htold
      exact hnext v _ _ h hrest

theorem mono {first' last' : ℝ} (h : s.Within first last) (hfirst : first' ≤ first)
    (hlast : last ≤ last') : s.Within first' last' := by
  intro asked rest hasked htold
  obtain ⟨t, ht, hrest⟩ := h asked rest hasked htold
  exact ⟨t, Set.Icc_subset_Icc hfirst hlast ht, hrest⟩

end Within

end Search

/-! ### Values on two sides of zero -/

/-- A bracket of two real samples. -/
def Bracket.real (t₁ y₁ t₂ y₂ : ℝ) : Bracket (PartialReal w) :=
  ⟨⟨.real t₁, .real y₁⟩, ⟨.real t₂, .real y₂⟩⟩

@[simp] theorem Bracket.left_real (t₁ y₁ t₂ y₂ : ℝ) :
    (Bracket.real t₁ y₁ t₂ y₂ : Bracket (PartialReal w)).left = ⟨.real t₁, .real y₁⟩ := rfl

@[simp] theorem Bracket.right_real (t₁ y₁ t₂ y₂ : ℝ) :
    (Bracket.real t₁ y₁ t₂ y₂ : Bracket (PartialReal w)).right = ⟨.real t₂, .real y₂⟩ := rfl

namespace Direction

/-- Whether two real values lie on different sides of zero, or on it, in a direction. -/
def Separates (direction : Direction) (before after : ℝ) : Prop :=
  match direction with
  | .fromBelow => before ≤ 0 ∧ 0 ≤ after
  | .fromAbove => 0 ≤ before ∧ after ≤ 0
  | .any => before ≤ 0 ∧ 0 ≤ after ∨ 0 ≤ before ∧ after ≤ 0

variable {direction : Direction} {t₁ y₁ t₂ y₂ : ℝ}

theorem crosses_real_iff : crosses direction (real y₁) (real y₂) (0 : PartialReal w) = true ↔
    direction.Separates y₁ y₂ := by
  cases direction <;> simp [crosses, holds, rises, falls, Separates]

namespace Separates

theorem sides (h : direction.Separates y₁ y₂) : y₁ ≤ 0 ∧ 0 ≤ y₂ ∨ 0 ≤ y₁ ∧ y₂ ≤ 0 := by
  cases direction with
  | fromBelow => exact .inl h
  | fromAbove => exact .inr h
  | any => exact h

/-- A value on the same side can take the place of another. -/
theorem imp_left (h : direction.Separates y₁ y₂) {v : ℝ} (hbelow : y₁ ≤ 0 → v ≤ 0)
    (habove : 0 ≤ y₁ → 0 ≤ v) : direction.Separates v y₂ := by
  cases direction with
  | fromBelow => exact h.imp_left hbelow
  | fromAbove => exact h.imp_left habove
  | any => exact h.imp (And.imp_left hbelow) (And.imp_left habove)

theorem imp_right (h : direction.Separates y₁ y₂) {v : ℝ} (hbelow : y₂ ≤ 0 → v ≤ 0)
    (habove : 0 ≤ y₂ → 0 ≤ v) : direction.Separates y₁ v := by
  cases direction with
  | fromBelow => exact h.imp_right habove
  | fromAbove => exact h.imp_right hbelow
  | any => exact h.imp (And.imp_right habove) (And.imp_right hbelow)

/-- A line crosses zero between two times at which it is not on the same side. -/
theorem secant_mem (h : direction.Separates y₁ y₂) (hne : y₁ ≠ y₂) (hle : t₁ ≤ t₂) :
    (y₁ * t₂ - y₂ * t₁) / (y₁ - y₂) ∈ Set.Icc t₁ t₂ := by
  obtain ⟨hy₁, hy₂⟩ | ⟨hy₁, hy₂⟩ := h.sides
  · have hneg : y₁ - y₂ < 0 := sub_neg.mpr (lt_of_le_of_ne (hy₁.trans hy₂) hne)
    constructor
    · rw [le_div_iff_of_neg hneg]
      nlinarith
    · rw [div_le_iff_of_neg hneg]
      nlinarith
  · have hpos : 0 < y₁ - y₂ := sub_pos.mpr (lt_of_le_of_ne (hy₂.trans hy₁) hne.symm)
    constructor
    · rw [le_div_iff₀ hpos]
      nlinarith
    · rw [div_le_iff₀ hpos]
      nlinarith

end Separates

end Direction

/-! ### Lines, halves and false positions -/

namespace Locator

variable {direction : Direction} {t₁ y₁ t₂ y₂ : ℝ}

/-- The middle of an interval lies in it. -/
theorem half_mem (hle : t₁ ≤ t₂) : (t₂ - t₁) / 2 + t₁ ∈ Set.Icc t₁ t₂ := by
  constructor <;> linarith

@[simp]
theorem middle_real :
    middle (Bracket.real t₁ y₁ t₂ y₂ : Bracket (PartialReal w)) = real ((t₂ - t₁) / 2 + t₁) := by
  simp [middle]

theorem searchLine_within (hle : t₁ ≤ t₂) (hsides : direction.Separates y₁ y₂) :
    (searchLine (Bracket.real t₁ y₁ t₂ y₂ : Bracket (PartialReal w))).Within t₁ t₂ := by
  unfold searchLine
  split
  next => exact .found (Set.left_mem_Icc.mpr hle)
  next hne =>
    have hne : y₁ ≠ y₂ := by simpa using hne
    have hslope : y₂ - y₁ ≠ 0 := sub_ne_zero.mpr hne.symm
    have htime : (t₂ - t₁) / (y₂ - y₁) * -y₁ + t₁ = (y₁ * t₂ - y₂ * t₁) / (y₁ - y₂) := by
      have hslope' : y₁ - y₂ ≠ 0 := sub_ne_zero.mpr hne
      field_simp
      ring
    simp only [Bracket.left_real, Bracket.right_real, real_sub, real_div _ hslope, real_neg,
      real_mul, real_add, htime]
    exact .found (hsides.secant_mem hne hle)

theorem searchBisection_within (turns : ℕ) (hle : t₁ ≤ t₂) {last : ℝ}
    (hlast : last ∈ Set.Icc t₁ t₂) :
    (searchBisection direction turns (Bracket.real t₁ y₁ t₂ y₂) (real last : PartialReal w)).Within
      t₁ t₂ := by
  induction turns generalizing t₁ y₁ t₂ y₂ last with
  | zero => exact .found hlast
  | succ turns ih =>
      have hmiddle := half_mem hle
      rw [searchBisection, middle_real]
      refine .probe hmiddle fun v => ?_
      split
      next => exact (ih hmiddle.1 (Set.right_mem_Icc.mpr hmiddle.1)).mono le_rfl hmiddle.2
      next =>
        split
        next => exact (ih hmiddle.2 (Set.left_mem_Icc.mpr hmiddle.2)).mono hmiddle.1 le_rfl
        next => exact .found hmiddle

/-- False position looks inside the bracket. -/
theorem exists_falsePoint {tolerance : ℝ} (htolerance : 0 < tolerance) (hle : t₁ ≤ t₂)
    (hsides : direction.Separates y₁ y₂) : ∃ t ∈ Set.Icc t₁ t₂,
      (falsePoint (real tolerance) (Bracket.real t₁ y₁ t₂ y₂) : PartialReal w) = real t := by
  unfold falsePoint
  split
  next => exact ⟨_, half_mem hle, middle_real⟩
  next hsteep =>
    have hne : y₁ ≠ y₂ := by
      rintro rfl
      apply hsteep
      simpa using htolerance
    refine ⟨_, hsides.secant_mem hne hle, ?_⟩
    simp only [Bracket.left_real, Bracket.right_real, real_mul, real_sub,
      real_div _ (sub_ne_zero.mpr hne)]

/-- An end that stays, at its value or half of it, stays on its side. -/
theorem exists_kept_left {c : Prop} [Decidable c] (t : ℝ) (hsides : direction.Separates y₁ y₂) :
    ∃ y, (if c then halved ⟨real t, real y₁⟩ else ⟨real t, real y₁⟩ : Sample (PartialReal w)) =
      ⟨real t, real y⟩ ∧ direction.Separates y y₂ := by
  split
  · exact ⟨y₁ / 2, by simp [halved], hsides.imp_left (by intro; linarith) (by intro; linarith)⟩
  · exact ⟨y₁, rfl, hsides⟩

theorem exists_kept_right {c : Prop} [Decidable c] (t : ℝ) (hsides : direction.Separates y₁ y₂) :
    ∃ y, (if c then halved ⟨real t, real y₂⟩ else ⟨real t, real y₂⟩ : Sample (PartialReal w)) =
      ⟨real t, real y⟩ ∧ direction.Separates y₁ y := by
  split
  · exact ⟨y₂ / 2, by simp [halved], hsides.imp_right (by intro; linarith) (by intro; linarith)⟩
  · exact ⟨y₂, rfl, hsides⟩

/-- False position stays in the bracket: what it keeps of it has its values on two sides of zero. -/
theorem searchFalsePosition_within {tolerance : ℝ} (htolerance : 0 < tolerance) (turns : ℕ)
    (moved : Moved) (hle : t₁ ≤ t₂) (hsides : direction.Separates y₁ y₂) {last : ℝ}
    (hlast : last ∈ Set.Icc t₁ t₂) :
    (searchFalsePosition direction (real tolerance) turns (Bracket.real t₁ y₁ t₂ y₂) moved
      (real last : PartialReal w)).Within t₁ t₂ := by
  induction turns generalizing t₁ y₁ t₂ y₂ moved last with
  | zero => exact .found hlast
  | succ turns ih =>
      obtain ⟨t, ht, hpoint⟩ := exists_falsePoint (w := w) htolerance hle hsides
      rw [searchFalsePosition]
      split
      next => exact .found hlast
      next =>
        rw [hpoint]
        refine .probe ht fun v => ?_
        split
        next => exact .found ht
        next =>
          split
          next hleft =>
            obtain ⟨y, hkept, hsides⟩ := exists_kept_left (w := w) (c := moved = .right) t₁
              (Direction.crosses_real_iff.mp hleft)
            simp only [Bracket.left_real, hkept]
            exact (ih .right ht.1 hsides (Set.right_mem_Icc.mpr ht.1)).mono le_rfl ht.2
          next =>
            split
            next hright =>
              obtain ⟨y, hkept, hsides⟩ := exists_kept_right (w := w) (c := moved = .left) t₂
                (Direction.crosses_real_iff.mp hright)
              simp only [Bracket.right_real, hkept]
              exact (ih .left ht.2 hsides (Set.left_mem_Icc.mpr ht.2)).mono ht.1 le_rfl
            next => exact .found ht

end Locator

end CausalBlocks
