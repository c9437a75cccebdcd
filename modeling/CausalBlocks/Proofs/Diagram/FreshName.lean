import Mathlib.Data.List.Perm.Subperm
import Mathlib.Data.Nat.Find
import CausalBlocks.Diagram.Edit
import CausalBlocks.Proofs.Outcome
import CausalBlocks.Proofs.Text.Numeral

/-!
# Generated names

There is one candidate more than there are taken names, and different numbers give
different candidates. So a search among them ends with the first that is free.
-/

namespace List

variable {β : Type} {f : Nat → Option β} {n : Nat} {b : β}

/-- A search along the numbers ends with the first that has an answer. -/
theorem findSome?_range_eq_some :
    (range n).findSome? f = some b ↔ ∃ k < n, f k = some b ∧ ∀ j < k, f j = none := by
  induction n with
  | zero => simp
  | succ n ih =>
      simp only [range_succ, findSome?_append, Option.or_eq_some_iff, findSome?_singleton,
        findSome?_eq_none_iff, mem_range]
      constructor
      · rintro (h | ⟨hnone, h⟩)
        · obtain ⟨k, hk, hanswer⟩ := ih.mp h
          exact ⟨k, by omega, hanswer⟩
        · exact ⟨n, by omega, h, hnone⟩
      · rintro ⟨k, hk, h, hnone⟩
        by_cases hlt : k < n
        case pos => exact .inl (ih.mpr ⟨k, hlt, h, hnone⟩)
        case neg =>
          obtain rfl : k = n := by omega
          exact .inr ⟨hnone, h⟩

end List

namespace CausalBlocks

variable {taken : List String} {stem : String} {numeral : Nat → String} {first : Nat}

theorem append_left_injective {a b : String} (h : stem ++ a = stem ++ b) : a = b := by
  have hlist := congrArg String.toList h
  rw [String.toList_append, String.toList_append] at hlist
  exact String.toList_inj.mp (List.append_cancel_left hlist)

theorem append_ne_empty {a : String} (h : a ≠ "") : stem ++ a ≠ "" := by
  intro hempty
  have hlist := congrArg String.toList hempty
  rw [String.toList_append] at hlist
  exact h (String.toList_inj.mp (List.append_eq_nil_iff.mp hlist).2)

/-- Not all of the candidates are taken. -/
theorem exists_free (taken : List String) (stem : String)
    (hinj : ∀ m n, numeral m = numeral n → m = n) (first : Nat) :
    ∃ k < taken.length + 1, stem ++ numeral (first + k) ∉ taken := by
  refine Classical.byContradiction fun hall => ?_
  have hmem : ∀ k < taken.length + 1, stem ++ numeral (first + k) ∈ taken := fun k hk =>
    Classical.byContradiction fun hnot => hall ⟨k, hk, hnot⟩
  let candidates := (List.range (taken.length + 1)).map fun k => stem ++ numeral (first + k)
  have hnodup : candidates.Nodup := by
    refine List.pairwise_map.mpr (List.nodup_range.imp fun hne heq => hne ?_)
    have := hinj _ _ (append_left_injective heq)
    omega
  have hsub : candidates ⊆ taken := by
    intro name hname
    obtain ⟨k, hk, rfl⟩ := List.mem_map.mp hname
    exact hmem k (List.mem_range.mp hk)
  have hlength := (List.subperm_of_subset hnodup hsub).length_le
  simp only [candidates, List.length_map, List.length_range] at hlength
  omega

/-- A stem that is a free name is kept. -/
theorem freshName_eq_stem (h : stem ≠ "" ∧ stem ∉ taken) :
    freshName taken stem numeral first = stem := by
  rw [freshName, if_pos h]

/-- Any other stem gets the first number that makes it free. -/
theorem exists_freshName_eq (first : Nat) (hinj : ∀ m n, numeral m = numeral n → m = n)
    (h : ¬(stem ≠ "" ∧ stem ∉ taken)) : ∃ k ≤ taken.length,
      freshName taken stem numeral first = stem ++ numeral (first + k) ∧
        stem ++ numeral (first + k) ∉ taken ∧ ∀ j < k, stem ++ numeral (first + j) ∈ taken := by
  obtain ⟨n, hn, hfree⟩ := exists_free taken stem hinj first
  have hexists : ∃ k, stem ++ numeral (first + k) ∉ taken := ⟨n, hfree⟩
  have hleast : Nat.find hexists ≤ taken.length := by
    have := Nat.find_le (h := hexists) hfree
    omega
  have htaken : ∀ j < Nat.find hexists, stem ++ numeral (first + j) ∈ taken := fun j hj =>
    not_not.mp (Nat.find_min hexists hj)
  refine ⟨Nat.find hexists, hleast, ?_, Nat.find_spec hexists, htaken⟩
  have hfound : (List.range (taken.length + 1)).findSome? (fun k =>
      if stem ++ numeral (first + k) ∈ taken then none else some (stem ++ numeral (first + k))) =
        some (stem ++ numeral (first + Nat.find hexists)) := by
    apply List.findSome?_range_eq_some.mpr
    refine ⟨_, Nat.lt_succ_of_le hleast, if_neg (Nat.find_spec hexists), fun j hj => ?_⟩
    exact if_pos (htaken j hj)
  simp only [freshName, if_neg h, hfound, Option.getD_some]

theorem freshName_free (hinj : ∀ m n, numeral m = numeral n → m = n)
    (hne : ∀ n, numeral n ≠ "") (first : Nat) :
    freshName taken stem numeral first ≠ "" ∧ freshName taken stem numeral first ∉ taken := by
  by_cases h : stem ≠ "" ∧ stem ∉ taken
  case pos =>
    rw [freshName_eq_stem h]
    exact h
  case neg =>
    obtain ⟨k, _, hname, hfree, _⟩ := exists_freshName_eq first hinj h
    rw [hname]
    exact ⟨append_ne_empty (hne _), hfree⟩

end CausalBlocks
