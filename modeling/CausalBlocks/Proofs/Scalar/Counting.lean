import Mathlib
import CausalBlocks.Proofs.Block.Failing
import CausalBlocks.Scalar.Double

/-!
# Counting with doubles

A number with at most 53 bits is a double, with all bits of the mantissa before or after the
point. A double that is at most as large is of a smaller scale or has a smaller mantissa, so that
it counts for no more. Therefore a selector picks one of the inputs that there are.
-/

namespace CausalBlocks

namespace Double

open Float.Model (Format UnpackedFloat totalExponent)
open Float.Model.UnpackedFloat

/-! ### Mantissas -/

theorem toNat_implicit (m : BitVec 52) : (1#1 ++ m).toNat = 2 ^ 52 + m.toNat := by
  rw [BitVec.toNat_append, ← Nat.shiftLeft_add_eq_or_of_lt m.isLt]
  rfl

theorem mantissa_shiftRight (em : ExtendedMantissa) (n : Nat) :
    (em >>> n).mantissa = em.mantissa / 2 ^ n := by
  induction n with
  | zero => exact (Nat.div_one _).symm
  | succ n ih =>
      change (em >>> n).mantissa / 2 = _
      rw [ih, Nat.div_div_eq_div_mul, Nat.pow_succ]

theorem shiftRight_mul (m n : Nat) :
    (ExtendedMantissa.mk (m * 2 ^ n) false false >>> n) = ⟨m, false, false⟩ := by
  induction n generalizing m with
  | zero => rw [Nat.pow_zero, Nat.mul_one]; rfl
  | succ n ih =>
      change ((ExtendedMantissa.mk (m * 2 ^ (n + 1)) false false) >>> n).shiftRightOne = _
      rw [Nat.pow_succ, Nat.mul_comm (2 ^ n), ← Nat.mul_assoc, ih]
      simp [ExtendedMantissa.shiftRightOne]

/-- Bits after the point do not count. -/
theorem roundToInt_of_nonpos {m : Nat} {e : Int} (he : e ≤ 0) :
    roundToInt .positive m e = (m / 2 ^ (-e).toNat : Nat) := by
  have hzero : (e - 0).toNat = 0 := by omega
  have hshift : (0 - (e - ((e - 0).toNat : Int))).toNat = (-e).toNat := by omega
  simp only [roundToInt, decreaseExponent, shiftToExponent, hshift, Sign.apply]
  rw [mantissa_shiftRight, hzero]
  rfl

/-- A mantissa of 53 bits with its highest bit. -/
structure Full (m : Nat) : Prop where
  low : 2 ^ 52 ≤ m
  high : m < 2 ^ 53

namespace Full

variable {m k : Nat} {e : Int} (h : Full m)
include h

theorem pos : 0 < m := Nat.lt_of_lt_of_le (by decide) h.low

theorem log2_mul : (m * 2 ^ k).log2 = 52 + k := by
  have hpos : 0 < m * 2 ^ k := Nat.mul_pos h.pos (Nat.two_pow_pos k)
  apply (Nat.log2_eq_iff hpos.ne').mpr
  rw [show 52 + k + 1 = 53 + k by omega, Nat.pow_add 2 52, Nat.pow_add 2 53]
  exact ⟨Nat.mul_le_mul_right _ h.low, Nat.mul_lt_mul_of_pos_right h.high (Nat.two_pow_pos k)⟩

theorem shiftToTargetExponent_mul (he : -1074 ≤ e) :
    shiftToTargetExponent Format.binary64 (m * 2 ^ k) (e - k) .exact = (⟨m, false, false⟩, e) := by
  have htarget : Format.binary64.targetExponent (totalExponent (m * 2 ^ k) (e - k)) = e := by
    simp [Format.targetExponent, totalExponent, Format.mantissaBits, Format.minExponent, h.log2_mul]
    omega
  have hk : (e - (e - k)).toNat = k := by omega
  simp only [shiftToTargetExponent, htarget, shiftToExponent, hk]
  rw [show ExtendedMantissa.ofMantissaAndAccuracy (m * 2 ^ k) .exact =
    ⟨m * 2 ^ k, false, false⟩ from rfl, shiftRight_mul, Int.sub_add_cancel]

/-- Trailing zeros are shifted out, and nothing is lost. -/
theorem roundWithAccuracy_mul (he : -1074 ≤ e) (s : Sign) :
    roundWithAccuracy Format.binary64 s (m * 2 ^ k) (e - k) .exact = .finite s m e h.pos := by
  have hround : (ExtendedMantissa.mk m false false).roundedMantissa = m := rfl
  have hagain := h.shiftToTargetExponent_mul (k := 0) he
  rw [Nat.pow_zero, Nat.mul_one, Int.ofNat_zero, Int.sub_zero] at hagain
  simp only [roundWithAccuracy, h.shiftToTargetExponent_mul he, hround, hagain]
  rw [dif_neg h.pos.ne']

/-- Packing loses nothing. -/
theorem unpack_pack (hlow : -52 ≤ e) (hhigh : e ≤ 0) (s : Sign) :
    unpack Format.binary64 (pack Format.binary64 (.finite s m e h.pos)) = .finite s m e h.pos := by
  obtain ⟨biased, hbiased⟩ : ∃ biased : Nat, e + 1075 = biased :=
    ⟨(e + 1075).toNat, (Int.toNat_of_nonneg (by omega)).symm⟩
  have hlog : m.log2 = 52 := by simpa using h.log2_mul (k := 0)
  have hpack : pack Format.binary64 (.finite s m e h.pos) =
      packComponents Format.binary64 s (BitVec.ofNat 11 biased) (BitVec.ofNat 52 m) := by
    have hbits : (e + Format.binary64.exponentBias + (52 : Nat)).toNat = biased := by
      have hbias : (Format.binary64.exponentBias : Int) = 1023 := by decide
      omega
    simp only [UnpackedFloat.pack, hbits]
    rw [if_neg (by omega), if_pos (by rw [hlog]; rfl)]
  have hexponent : (BitVec.ofNat 11 biased).toNat = biased := by
    rw [BitVec.toNat_ofNat, Nat.mod_eq_of_lt (by omega)]
  have hzero : BitVec.ofNat 11 biased ≠ 0#11 := by
    intro heq
    have := congrArg BitVec.toNat heq
    rw [hexponent] at this
    simp at this
    omega
  have hones : BitVec.ofNat 11 biased ≠ -1#11 := by
    intro heq
    have := congrArg BitVec.toNat heq
    rw [hexponent] at this
    simp at this
    omega
  have hmantissa : (1#1 ++ BitVec.ofNat 52 m).toNat = m := by
    have hlow := h.low
    have hhigh := h.high
    rw [toNat_implicit, BitVec.toNat_ofNat]
    omega
  rw [hpack]
  simp only [UnpackedFloat.unpack, unpackMantissa_packComponents, unpackExponent_packComponents,
    unpackSign_packComponents, Sign.ofBitVec_toBitVec, hexponent, hmantissa]
  rw [if_neg hones, if_neg hzero]
  congr 1
  have hbias : (Format.binary64.exponentBias : Int) = 1023 := by decide
  omega

end Full

/-! ### Natural numbers as doubles -/

theorem log2_le {n : Nat} (hpos : 0 < n) (hlt : n < 2 ^ 53) : n.log2 ≤ 52 := by
  have := (Nat.log2_lt hpos.ne').mpr hlt
  omega

theorem full_shiftLeft {n : Nat} (hpos : 0 < n) (hlt : n < 2 ^ 53) :
    Full (n * 2 ^ (52 - n.log2)) := by
  have hlog := log2_le hpos hlt
  have hlow := Nat.log2_self_le hpos.ne'
  have hhigh := Nat.lt_log2_self (n := n)
  constructor
  · calc 2 ^ 52 = 2 ^ n.log2 * 2 ^ (52 - n.log2) := by rw [← Nat.pow_add]; congr 1; omega
      _ ≤ n * 2 ^ (52 - n.log2) := Nat.mul_le_mul_right _ hlow
  · calc n * 2 ^ (52 - n.log2) < 2 ^ (n.log2 + 1) * 2 ^ (52 - n.log2) :=
        Nat.mul_lt_mul_of_pos_right hhigh (Nat.two_pow_pos _)
      _ = 2 ^ 53 := by rw [← Nat.pow_add]; congr 1; omega

theorem ofNat_eq {n : Nat} (hpos : 0 < n) (hlt : n < 2 ^ 53) :
    UnpackedFloat.ofNat Format.binary64 n = .finite .positive (n * 2 ^ (52 - n.log2))
      (n.log2 - 52) (full_shiftLeft hpos hlt).pos := by
  have hfull := full_shiftLeft hpos hlt
  have hlog := log2_le hpos hlt
  have htarget : Format.binary64.targetExponent (totalExponent n 0) = n.log2 - 52 := by
    simp [Format.targetExponent, totalExponent, Format.mantissaBits, Format.minExponent]
    omega
  have hshift : ((0 : Int) - (n.log2 - 52)).toNat = 52 - n.log2 := by omega
  have hround := hfull.roundWithAccuracy_mul (k := 0) (e := n.log2 - 52) (by omega) .positive
  rw [Nat.pow_zero, Nat.mul_one, Int.ofNat_zero, Int.sub_zero] at hround
  have hcompare : compare (n : Int) 0 = .gt := Int.compare_eq_gt.mpr (by omega)
  simp only [UnpackedFloat.ofNat, ofInt, UnpackedFloat.normalize, hcompare, UnpackedFloat.round,
    htarget, decreaseExponent, hshift, Int.toNat_natCast, Nat.shiftLeft_eq]
  rw [← hround]
  congr 1
  omega

theorem unpack_one : (Float.ofBits 0x3FF0000000000000).toModel.unpack =
    .finite .positive (2 ^ 52) (-52) (by decide) := by
  rfl

theorem ofNat_eq_mul {n : Nat} (hlt : n < 2 ^ 53) :
    Float.ofNat n = n.toUInt64.toFloat * Float.ofBits 0x3FF0000000000000 := by
  unfold Float.ofNat
  change Float.ofScientific n false 0 = _
  unfold Float.ofScientific
  rw [dif_pos ⟨hlt, by decide⟩]
  rfl

/-- A number with at most 53 bits is a double. -/
theorem unpack_ofNat {n : Nat} (hpos : 0 < n) (hlt : n < 2 ^ 53) :
    (Float.ofNat n).toModel.unpack = .finite .positive (n * 2 ^ (52 - n.log2))
      (n.log2 - 52) (full_shiftLeft hpos hlt).pos := by
  have hfull := full_shiftLeft hpos hlt
  have hlog := log2_le hpos hlt
  have hword : n.toUInt64.toNat = n := UInt64.toNat_ofNat_of_lt (Nat.lt_trans hlt (by decide))
  have hfloat : n.toUInt64.toFloat.toModel.unpack = .finite .positive (n * 2 ^ (52 - n.log2))
      (n.log2 - 52) hfull.pos := by
    have hpacked : n.toUInt64.toFloat.toModel.unpack = unpack .binary64
        (pack .binary64 (UnpackedFloat.ofNat .binary64 n.toUInt64.toNat)) := rfl
    rw [hpacked, hword, ofNat_eq hpos hlt, hfull.unpack_pack (by omega) (by omega)]
  have hproduct : (Float.ofNat n).toModel.unpack = unpack .binary64 (pack .binary64
      (mul .binary64 n.toUInt64.toFloat.toModel.unpack
        (Float.ofBits 0x3FF0000000000000).toModel.unpack)) := by
    rw [ofNat_eq_mul hlt]
    rfl
  have hround := hfull.roundWithAccuracy_mul (k := 52) (e := n.log2 - 52) (by omega) .positive
  rw [hproduct, hfloat, unpack_one]
  exact (congrArg (fun f => unpack .binary64 (pack .binary64 f)) hround).trans
    (hfull.unpack_pack (by omega) (by omega) .positive)

/-! ### Counting -/

theorem mantissa_lt {bits : BitVec 64} {s : Sign} {m : Nat} {e : Int} {hm : 0 < m}
    (h : UnpackedFloat.unpack Format.binary64 bits = .finite s m e hm) : m < 2 ^ 53 := by
  unfold UnpackedFloat.unpack at h
  dsimp only at h
  split at h
  next => split at h <;> cases h
  next =>
    split at h
    next =>
      split at h
      next => cases h
      next =>
        cases h
        exact Nat.lt_trans (BitVec.isLt _) (by decide)
    next =>
      cases h
      exact BitVec.isLt _

theorem roundToInt_negative (m : Nat) (e : Int) : (roundToInt .negative m e).toNat = 0 := by
  have hneg : ∃ k : Nat, roundToInt .negative m e = -(k : Int) := ⟨_, rfl⟩
  obtain ⟨k, hk⟩ := hneg
  omega

/-- A double that is at most a number with its highest bit, a whole one, counts for no more. -/
theorem toInt_le {u : UnpackedFloat} {m : Nat} {e : Int} {hm : 0 < m} (top : Int) (hfull : Full m)
    (he : e ≤ 0) (hbound : ∀ s m' e' hm', u = .finite s m' e' hm' → m' < 2 ^ 53)
    (hle : u.le (.finite .positive m e hm) = true) :
    (u.toInt 0 top).toNat ≤ m / 2 ^ (-e).toNat := by
  cases u with
  | notANumber => exact Nat.zero_le _
  | zero s => exact Nat.zero_le _
  | infinity s =>
      cases s with
      | positive => cases hle
      | negative => exact Nat.zero_le _
  | finite s m' e' hm' =>
      cases s with
      | negative =>
          change (roundToInt .negative m' e').toNat ≤ _
          rw [roundToInt_negative]
          exact Nat.zero_le _
      | positive =>
          have hhigh := hbound _ _ _ _ rfl
          have horder : e' < e ∨ e' = e ∧ m' ≤ m := by
            change ((compare e' e).then (compare m' m)).isLE = true at hle
            rcases Int.lt_trichotomy e' e with hlt | rfl | hgt
            · exact .inl hlt
            · rw [Int.compare_eq_eq.mpr rfl, Ordering.eq_then, Nat.isLE_compare] at hle
              exact .inr ⟨rfl, hle⟩
            · rw [Int.compare_eq_gt.mpr hgt] at hle
              cases hle
          change (roundToInt .positive m' e').toNat ≤ _
          rw [roundToInt_of_nonpos (by omega), Int.toNat_natCast]
          rcases horder with hlt | ⟨rfl, hmantissa⟩
          · -- one bit less after the point, so at most half of the mantissa counts
            calc m' / 2 ^ (-e').toNat ≤ m' / 2 ^ ((-e).toNat + 1) :=
                  Nat.div_le_div_left (Nat.pow_le_pow_right (by decide) (by omega))
                    (Nat.two_pow_pos _)
              _ = m' / 2 / 2 ^ (-e).toNat := by
                  rw [Nat.div_div_eq_div_mul, Nat.pow_succ, Nat.mul_comm]
              _ ≤ m / 2 ^ (-e).toNat := by
                  have := hfull.low
                  exact Nat.div_le_div_right (by omega)
          · exact Nat.div_le_div_right hmantissa

/-- Doubles count to any number below 2 ^ 53. -/
theorem countsTo {n : Nat} (hlt : n < 2 ^ 53) : Scalar.CountsTo Float n := by
  intro x hx
  have hle : x.toModel.unpack.le (Float.ofNat n).toModel.unpack = true := of_decide_eq_true hx
  have hclamp : x.toUInt64.toNat ≤ (x.toModel.unpack.toInt 0 (UInt64.size - 1)).toNat := by
    change (UInt64.ofNatClamp (x.toModel.unpack.toInt 0 (UInt64.size - 1)).toNat).toNat ≤ _
    unfold UInt64.ofNatClamp
    split
    next => exact Nat.le_refl _
    next hsize => exact Nat.le_trans (by decide) (Nat.le_of_not_lt hsize)
  apply Nat.le_trans hclamp
  rcases Nat.eq_zero_or_pos n with rfl | hpos
  case inl =>
    have hzero : (Float.ofNat 0).toModel.unpack = .zero .positive := rfl
    rw [hzero] at hle
    cases hx : x.toModel.unpack with
    | notANumber | zero => exact Nat.le_refl _
    | infinity s =>
        rw [hx] at hle
        cases s with
        | positive => cases hle
        | negative => exact Nat.le_refl _
    | finite s m e hm =>
        rw [hx] at hle
        cases s with
        | positive => cases hle
        | negative => exact Nat.le_of_eq (roundToInt_negative m e)
  case inr =>
    have hlog := log2_le hpos hlt
    rw [unpack_ofNat hpos hlt] at hle
    have hbound := toInt_le (UInt64.size - 1) (full_shiftLeft hpos hlt) (by omega)
      (fun _ _ _ _ h => mantissa_lt h) hle
    have hshift : (-((n.log2 : Int) - 52)).toNat = 52 - n.log2 := by omega
    rwa [hshift, Nat.mul_div_cancel _ (Nat.two_pow_pos _)] at hbound

end Double

end CausalBlocks
