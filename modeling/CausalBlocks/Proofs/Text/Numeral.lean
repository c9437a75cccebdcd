import CausalBlocks.Text.Numeral

/-!
# Reading numbers

The value of a numeral in base 64 is found from its digits by their places in the
alphabet, and that of a decimal one by its digits too. So different numbers have
different numerals.
-/

namespace CausalBlocks

/-- The number that digits in base 64 stand for, most significant digit first. -/
def value64 (digits : List Char) : Nat :=
  digits.foldl (fun value c => value * 64 + alphabet.idxOf c) 0

theorem idxOf_digit64 {value : Nat} (h : value < 64) : alphabet.idxOf (digit64 value) = value := by
  have hall : ∀ value : Fin 64, alphabet.idxOf (digit64 value) = value := by decide +kernel
  exact hall ⟨value, h⟩

theorem digits64_ne_nil (n : Nat) : digits64 n ≠ [] := by
  rw [digits64]
  split <;> simp

theorem value64_digits64 (n : Nat) : value64 (digits64 n).reverse = n := by
  induction n using Nat.strongRecOn with
  | ind n ih =>
      rw [digits64]
      split
      next h => simpa [value64] using idxOf_digit64 h
      next h =>
        have hdiv := ih (n / 64) (by omega)
        simp only [value64, List.reverse_cons, List.foldl_append, List.foldl_cons,
          List.foldl_nil] at hdiv ⊢
        rw [hdiv, idxOf_digit64 (Nat.mod_lt n (by omega))]
        omega

theorem toList_numeral64 (n : Nat) : (numeral64 n).toList = (digits64 n).reverse := by
  rw [numeral64, String.toList_ofList]

theorem numeral64_injective {m n : Nat} (h : numeral64 m = numeral64 n) : m = n := by
  have hdigits := congrArg String.toList h
  rw [toList_numeral64, toList_numeral64] at hdigits
  rw [← value64_digits64 m, ← value64_digits64 n, hdigits]

theorem numeral64_ne_empty (n : Nat) : numeral64 n ≠ "" := by
  intro h
  have hdigits := congrArg String.toList h
  rw [toList_numeral64] at hdigits
  exact digits64_ne_nil n (by simpa using hdigits)

theorem decimal_injective {m n : Nat} (h : toString m = toString n) : m = n := by
  have hdigits := congrArg String.toList h
  simp only [Nat.toString_eq_repr, Nat.toList_repr] at hdigits
  rw [← Nat.ofDigitChars_ten_toDigits (n := m), hdigits, Nat.ofDigitChars_ten_toDigits]

end CausalBlocks
