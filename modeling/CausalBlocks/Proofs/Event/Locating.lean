import CausalBlocks.Proofs.Event.Narrowing

/-!
# Where and how long a locator looks

Between two samples on different sides of zero, every locator looks between their times, and finds a
time there. So no quotient by zero is part of a time, whatever the locator is told. The interpolate,
truncate and project method ends within as many questions as halving takes, and `n0` more.
-/

namespace CausalBlocks

open PartialReal

variable {w : Whim}

namespace Search

theorem Answered.of_found {α : Type} {time : α} {asked : List (Sample α)} {rest : Search α}
    (h : (Search.found time).Answered asked rest) : asked = [] ∧ rest = .found time := by
  cases h
  exact ⟨rfl, rfl⟩

/-- A search that asks can be told one more value. -/
theorem Answered.snoc {α : Type} {s : Search α} {asked : List (Sample α)} {time : α}
    {next : α → Search α} (h : s.Answered asked (.probe time next)) (value : α) :
    s.Answered (asked ++ [⟨time, value⟩]) (next value) := by
  generalize hrest : Search.probe time next = rest at h
  induction h with
  | nothing =>
      subst hrest
      exact .next (.nothing _)
  | next _ ih => exact .next (ih hrest)

end Search

namespace Locator

/-- The locators that can be made: a tolerance is positive, parameters are accepted. -/
def Accepted : Locator (PartialReal w) → Prop
  | .falsePosition tolerance _ => ∃ x : ℝ, 0 < x ∧ tolerance = real x
  | .itp p => ∃ q : ItpParameters ℝ, p = q.real ∧ makeItp p = .ok (.itp p)
  | _ => True

variable {direction : Direction} {t₁ y₁ t₂ y₂ : ℝ}

/-- Every locator looks between the times of two samples that cross, whatever it is told, and finds
a time between them. -/
theorem search_within {l : Locator (PartialReal w)} (hl : l.Accepted) (hle : t₁ ≤ t₂)
    (hcross : crosses direction (real y₁) (real y₂) (0 : PartialReal w) = true) :
    (l.search direction (Bracket.real t₁ y₁ t₂ y₂)).Within t₁ t₂ := by
  have hsides := Direction.crosses_real_iff.mp hcross
  have hleft : t₁ ∈ Set.Icc t₁ t₂ := Set.left_mem_Icc.mpr hle
  cases l with
  | before => exact .found hleft
  | after => exact .found (Set.right_mem_Icc.mpr hle)
  | line => exact searchLine_within hle hsides
  | bisection iterations => exact searchBisection_within iterations hle hleft
  | falsePosition tolerance iterations =>
      obtain ⟨x, hx, rfl⟩ := hl
      exact searchFalsePosition_within hx iterations .neither hle hsides hleft
  | itp p =>
      obtain ⟨q, rfl, hq⟩ := hl
      exact searchItpFrom_within (makeItp_real_iff.mp hq) hle hsides

/-- Parameters of which each is one, but that no turn is added to halving. -/
def unitItp : ItpParameters ℝ := ⟨1, 1, 1, 0⟩

theorem makeItp_unitItp :
    makeItp (unitItp.real : ItpParameters (PartialReal w)) = .ok (.itp unitItp.real) := by
  apply makeItp_real_iff.mpr
  exact ⟨one_pos, one_pos, ⟨le_rfl, le_add_of_nonneg_right (by positivity)⟩, le_rfl⟩

theorem separates_unit : Direction.any.Separates (-1) 1 :=
  Or.inl ⟨by norm_num, zero_le_one⟩

theorem search_within_unitItp :
    ((Locator.itp unitItp.real : Locator (PartialReal .unrelated)).search .any
      (Bracket.real 0 (-1) 4 1)).Within 0 4 :=
  search_within ⟨_, rfl, makeItp_unitItp⟩ (by norm_num)
    (Direction.crosses_real_iff.mpr separates_unit)

variable {p : ItpParameters ℝ} {a ya c yc : ℝ} {asked : List (Sample (PartialReal w))}
  {rest : Search (PartialReal w)}

/-- The method asks no more often than it has turns. If an end is zero it does not ask. -/
theorem searchItpFrom_length (hp : p.Fit) (hlt : a < c) (hsides : direction.Separates ya yc)
    (hasked : (searchItpFrom direction p.real (Bracket.real a ya c yc)).Answered asked rest)
    (htold : Search.ToldReal asked) : (asked.length : ℤ) ≤ p.mostTurns (c - a) := by
  have hnothing : (([] : List (Sample (PartialReal w))).length : ℤ) ≤ p.mostTurns (c - a) :=
    (le_max_left _ _).trans (p.max_le_mostTurns hp.n0 (c - a))
  by_cases hya : ya = 0
  · simp only [searchItpFrom, Bracket.left_real, real_zero, real_beq, hya, if_true] at hasked
    rwa [hasked.of_found.1]
  by_cases hyc : yc = 0
  · simp only [searchItpFrom, Bracket.left_real, Bracket.right_real, real_zero, real_beq, hya, hyc,
      if_false, if_true] at hasked
    rwa [hasked.of_found.1]
  exact (searchItpFrom_answered hp hlt hsides hya hyc hasked htold).1

/-- The interpolate, truncate and project method ends: a search that still asks has turns left. What
it finds is settled, unless it did not have to search. -/
theorem itp_settles
    (hp : makeItp (p.real : ItpParameters (PartialReal w)) = .ok (.itp p.real)) (hlt : a < c)
    (hcross : crosses direction (real ya) (real yc) (0 : PartialReal w) = true)
    (hasked : ((Locator.itp p.real).search direction (Bracket.real a ya c yc)).Answered asked rest)
    (htold : Search.ToldReal asked) :
    match rest with
    | .probe _ _ => (asked.length : ℤ) < p.mostTurns (c - a)
    | .found time => (asked.length : ℤ) ≤ p.mostTurns (c - a) ∧
        (ya ≠ 0 → yc ≠ 0 → Settled p direction a ya c yc asked time) := by
  have hfit := makeItp_real_iff.mp hp
  have hsides := Direction.crosses_real_iff.mp hcross
  cases rest with
  | probe time next =>
      -- told one more value, it has still asked no more often than it has turns
      have hmore : Search.ToldReal (asked ++ [⟨time, real 0⟩]) := by
        simpa [Search.ToldReal, or_imp, forall_and] using htold
      have hlength := searchItpFrom_length hfit hlt hsides (hasked.snoc (real 0)) hmore
      rw [List.length_append, List.length_singleton] at hlength
      push_cast at hlength
      exact Int.lt_of_add_one_le hlength
  | found time =>
      refine ⟨searchItpFrom_length hfit hlt hsides hasked htold, fun hya hyc => ?_⟩
      exact (searchItpFrom_answered hfit hlt hsides hya hyc hasked htold).2 time rfl

/-- In a bracket that is two halvings wide, the method looks in the middle. Told zero, it ends. -/
theorem unitItp_answered :
    ((Locator.itp unitItp.real : Locator (PartialReal w)).search .any
      (Bracket.real 0 (-1) 4 1)).Answered [⟨real 2, real 0⟩] (.found (real 2)) := by
  have hp : unitItp.Fit := makeItp_real_iff.mp (makeItp_unitItp (w := w))
  have hstart := Narrowing.start hp (show (0 : ℝ) < 4 by norm_num) separates_unit
    (neg_ne_zero.mpr one_ne_zero) one_ne_zero
  have hmost : (⌈Real.logb 2 ((4 - 0) / (2 * unitItp.epsilon))⌉ : ℝ) + unitItp.n0 = 1 := by
    norm_num [unitItp, show (4 : ℝ) / 2 = 2 by norm_num]
  obtain ⟨turns, hturns⟩ : ∃ turns, ⌊(1 : ℝ)⌋.toNat + spareTurns = turns + 1 :=
    Nat.exists_eq_add_one_of_ne_zero (Nat.add_pos_right _ Nat.one_le_two_pow).ne'
  rw [hmost, hturns] at hstart
  obtain ⟨t, ht, hleft, hright, hlooks⟩ := hstart.probes (w := w) hp (by norm_num [unitItp])
  obtain rfl : t = 2 := by
    norm_num [unitItp] at hleft hright
    linarith
  change (searchItpFrom _ _ _).Answered _ _
  rw [searchItpFrom_real hp (by norm_num) (by norm_num) one_ne_zero, hmost, hturns, hlooks]
  apply Search.Answered.next
  generalize hafter : turnItp _ _ _ _ _ _ _ (real 0) = after
  cases hafter ▸ hstart.turned hp ht hleft hright 0 with
  | hit => exact .nothing _
  | right hnext => exact absurd rfl hnext.right_ne
  | left hnext => exact absurd rfl hnext.left_ne

theorem itp_settles_unitItp :
    (([⟨real 2, real 0⟩] : List (Sample (PartialReal .unrelated))).length : ℤ) ≤
        unitItp.mostTurns (4 - 0) ∧
      ((-1 : ℝ) ≠ 0 → (1 : ℝ) ≠ 0 →
        Settled unitItp .any 0 (-1) 4 1 [⟨real 2, real 0⟩]
          (real 2 : PartialReal .unrelated)) :=
  itp_settles makeItp_unitItp (by norm_num)
    (Direction.crosses_real_iff.mpr separates_unit) unitItp_answered
    (by simp [Search.ToldReal])

end Locator

end CausalBlocks
