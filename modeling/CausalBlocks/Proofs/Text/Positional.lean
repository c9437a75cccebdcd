import Mathlib.Data.Nat.Digits.Lemmas
import CausalBlocks.Proofs.Text.Numeral

/-!
# Numbers by places

A text writes a number in base 64 if its characters are digits, the digits times the powers
of 64 at their places add up to the number, and there is no zero in front. The numeral of a
number is the only text that writes it. How long a numeral is and what it begins with follow
from the digits of the number, which it shows one for one.
-/

namespace CausalBlocks

/-- A text that writes a number in base 64. The last character is at place 0, and only zero
begins with the digit zero. -/
structure Writes64 (text : String) (n : Nat) : Prop where
  nonempty : text ≠ ""
  digits : ∀ c ∈ text.toList, c ∈ alphabet
  leading : text.toList.head? = some 'a' → text = "a"
  value : ((text.toList.reverse.map alphabet.idxOf).mapIdx fun place digit =>
    digit * 64 ^ place).sum = n

variable {text : String} {n : Nat} {c : Char}

/-! ## Digits -/

theorem idxOf_alphabet_lt (hc : c ∈ alphabet) : alphabet.idxOf c < 64 :=
  List.idxOf_lt_length_of_mem hc

theorem digit64_idxOf (hc : c ∈ alphabet) : digit64 (alphabet.idxOf c) = c := by
  have hplace := List.idxOf_lt_length_of_mem hc
  rw [digit64, List.getD_eq_getElem?_getD, List.getElem?_eq_getElem hplace, Option.getD_some,
    List.getElem_idxOf hplace]

theorem digit64_mem_alphabet {value : Nat} (h : value < 64) : digit64 value ∈ alphabet := by
  apply List.idxOf_lt_length_iff.mp
  rw [idxOf_digit64 h]
  exact h

theorem digit64_eq_a_iff {value : Nat} (h : value < 64) : digit64 value = 'a' ↔ value = 0 := by
  constructor
  · intro hdigit
    rw [← idxOf_digit64 h, hdigit]
    rfl
  · rintro rfl
    rfl

theorem mem_alphabet_of_mem_digits64 (hc : c ∈ digits64 n) : c ∈ alphabet := by
  induction n using Nat.strongRecOn with
  | ind n ih =>
      rw [digits64] at hc
      split at hc
      next hlt =>
        rw [List.mem_singleton.mp hc]
        exact digit64_mem_alphabet hlt
      next hge =>
        rcases List.mem_cons.mp hc with rfl | hrest
        · exact digit64_mem_alphabet (Nat.mod_lt n (by omega))
        · exact ih (n / 64) (by omega) hrest

/-- Zero apart, whose expansion is empty, a number has the digits of its expansion. -/
theorem digits64_eq_map (hn : n ≠ 0) : digits64 n = (Nat.digits 64 n).map digit64 := by
  induction n using Nat.strongRecOn with
  | ind n ih =>
      rw [digits64]
      split
      next hlt => rw [Nat.digits_of_lt 64 n hn hlt, List.map_singleton]
      next hge =>
        have hrest := ih (n / 64) (by omega) (by omega)
        rw [Nat.digits_def' (by omega) (by omega), List.map_cons, hrest]

/-! ## Values -/

theorem value64_eq_ofDigits (digits : List Char) :
    value64 digits = Nat.ofDigits 64 (digits.reverse.map alphabet.idxOf) := by
  rw [value64, Nat.ofDigits_eq_foldr, List.foldr_map, List.foldr_reverse]
  congr
  funext value c
  rw [Nat.cast_id, Nat.add_comm, Nat.mul_comm]

/-- Reading the digits in turn adds up what each of them is worth at its place. -/
theorem value64_eq_sum (digits : List Char) :
    value64 digits =
      ((digits.reverse.map alphabet.idxOf).mapIdx fun place digit => digit * 64 ^ place).sum := by
  rw [value64_eq_ofDigits, Nat.ofDigits_eq_sum_mapIdx]

/-! ## Numerals -/

theorem numeral64_zero : numeral64 0 = "a" := by
  rw [numeral64, digits64, if_pos (by omega)]
  rfl

theorem head?_numeral64_iff : (numeral64 n).toList.head? = some 'a' ↔ n = 0 := by
  constructor
  · intro hhead
    by_contra hn
    have hnil : Nat.digits 64 n ≠ [] := Nat.digits_ne_nil_iff_ne_zero.mpr hn
    rw [toList_numeral64, List.head?_reverse, digits64_eq_map hn, List.getLast?_map,
      List.getLast?_eq_getLast_of_ne_nil hnil] at hhead
    have hlast := Nat.digits_lt_base (by omega) (List.getLast_mem hnil)
    apply Nat.getLast_digit_ne_zero 64 hn
    exact (digit64_eq_a_iff hlast).mp (Option.some.inj hhead)
  · rintro rfl
    rw [numeral64_zero]
    rfl

theorem length_numeral64_pos (n : Nat) : 0 < (numeral64 n).length := by
  rw [← String.length_toList, toList_numeral64, List.length_reverse]
  exact List.length_pos_iff.mpr (digits64_ne_nil n)

/-- The numbers below a power of 64 are those that need no more digits than its exponent. -/
theorem length_numeral64_le_iff (k : Nat) :
    (numeral64 n).length ≤ k + 1 ↔ n < 64 ^ (k + 1) := by
  by_cases hn : n = 0
  case pos =>
    have hlength : "a".length = 1 := rfl
    rw [hn, numeral64_zero, hlength]
    exact iff_of_true (Nat.le_add_left 1 k) (Nat.pow_pos (by omega))
  case neg =>
    rw [← String.length_toList, toList_numeral64, List.length_reverse, digits64_eq_map hn,
      List.length_map]
    exact Nat.digits_length_le_iff (by omega) n

theorem writes64_numeral64 (n : Nat) : Writes64 (numeral64 n) n where
  nonempty := numeral64_ne_empty n
  digits := by
    intro c hc
    rw [toList_numeral64, List.mem_reverse] at hc
    exact mem_alphabet_of_mem_digits64 hc
  leading := by
    intro hhead
    rw [head?_numeral64_iff.mp hhead, numeral64_zero]
  value := by rw [← value64_eq_sum, toList_numeral64, value64_digits64]

namespace Writes64

theorem value64_eq (h : Writes64 text n) : value64 text.toList = n := by
  rw [value64_eq_sum, h.value]

/-- A text without a zero in front shows the digits of the number that it writes. -/
theorem digits_eq (h : Writes64 text n) (hlead : text.toList.head? ≠ some 'a') :
    Nat.digits 64 n = text.toList.reverse.map alphabet.idxOf := by
  rw [← h.value64_eq, value64_eq_ofDigits]
  apply Nat.digits_ofDigits 64 (by omega)
  · intro digit hdigit
    obtain ⟨c, hc, rfl⟩ := List.mem_map.mp hdigit
    exact idxOf_alphabet_lt (h.digits c (List.mem_reverse.mp hc))
  · -- The most significant digit is that of the first character.
    intro hnil hzero
    have hchars : text.toList ≠ [] := fun heq => hnil (by rw [heq]; rfl)
    have hfirst := digit64_idxOf (h.digits _ (List.head_mem hchars))
    rw [List.getLast_map, List.getLast_reverse] at hzero
    rw [hzero] at hfirst
    rw [List.head?_eq_some_head hchars, ← hfirst] at hlead
    exact hlead rfl

theorem eq_numeral64 (h : Writes64 text n) : text = numeral64 n := by
  by_cases hlead : text.toList.head? = some 'a'
  case pos =>
    have hvalue := h.value64_eq
    rw [h.leading hlead] at hvalue ⊢
    rw [← hvalue]
    exact numeral64_zero.symm
  case neg =>
    have hdigits := h.digits_eq hlead
    have hn : n ≠ 0 := by
      rintro rfl
      apply h.nonempty
      simpa using hdigits
    have hchars : digits64 n = text.toList.reverse := by
      calc digits64 n = (text.toList.reverse.map alphabet.idxOf).map digit64 := by
            rw [digits64_eq_map hn, hdigits]
        _ = text.toList.reverse.map id := by
            rw [List.map_map]
            apply List.map_congr_left
            intro c hc
            exact digit64_idxOf (h.digits c (List.mem_reverse.mp hc))
        _ = text.toList.reverse := List.map_id _
    apply String.toList_inj.mp
    rw [toList_numeral64, hchars, List.reverse_reverse]

end Writes64

/-- Numerals are the notation by places: the numeral of a number is the one text that writes
it, and reading its digits from the first on gives the number back. So different numbers have
different numerals, only that of zero begins with the digit zero, and those of 64 bits have
between one and eleven digits. -/
theorem numeral64_positional (n : Nat) :
    value64 (numeral64 n).toList = n ∧
    (∀ text, text = numeral64 n ↔ Writes64 text n) ∧
    (∀ m, numeral64 m = numeral64 n ↔ m = n) ∧
    ((numeral64 n).toList.head? = some 'a' ↔ n = 0) ∧
    1 ≤ (numeral64 n).length ∧
    (∀ k, (numeral64 n).length ≤ k + 1 ↔ n < 64 ^ (k + 1)) ∧
    (n < 2 ^ 64 → (numeral64 n).length ≤ 11) := by
  refine ⟨(writes64_numeral64 n).value64_eq, fun text => ⟨?_, Writes64.eq_numeral64⟩,
    fun m => ⟨numeral64_injective, congrArg numeral64⟩, head?_numeral64_iff,
    length_numeral64_pos n, length_numeral64_le_iff, fun hn => ?_⟩
  · rintro rfl
    exact writes64_numeral64 n
  · apply (length_numeral64_le_iff 10).mpr
    calc n < 2 ^ 64 := hn
      _ < 64 ^ (10 + 1) := by norm_num

/-- The largest number of 64 bits takes eleven. -/
theorem numeral64_positional_largest :
    2 ^ 64 - 1 < 2 ^ 64 ∧ Writes64 "p__________" (2 ^ 64 - 1) ∧
      (numeral64 (2 ^ 64 - 1)).length ≤ 11 ∧ ¬(numeral64 (2 ^ 64 - 1)).length ≤ 10 := by
  obtain ⟨_, hwrites, _, _, _, hlength, hbits⟩ := numeral64_positional (2 ^ 64 - 1)
  have htext : "p__________" = numeral64 (2 ^ 64 - 1) := by decide +kernel
  refine ⟨by norm_num, (hwrites _).mp htext, hbits (by norm_num), ?_⟩
  rw [hlength 9]
  norm_num

example : [0, 63, 64].map numeral64 = ["a", "_", "ba"] := by decide +kernel

end CausalBlocks
