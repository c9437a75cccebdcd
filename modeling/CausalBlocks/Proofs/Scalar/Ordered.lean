import CausalBlocks.Proofs.Scalar.Rational

/-!
# Numbers in order

What it takes to speak of the least of several numbers. Doubles obey these laws; none of them
says anything about the arithmetic.
-/

namespace CausalBlocks

/-- A number that is not beyond infinity. Every double that is a number is such. -/
def Scalar.IsTime {α : Type} [Scalar α] (x : α) : Prop :=
  Scalar.isNumber x = true ∧ ¬ Scalar.infinity < x

instance {α : Type} [Scalar α] (x : α) : Decidable (Scalar.IsTime x) :=
  inferInstanceAs (Decidable (_ ∧ _))

/-- Numbers in an order that ends at infinity. What is not a number has no place in it. -/
class Ordered (α : Type) [Scalar α] : Prop where
  asymm {x y : α} : x < y → ¬ y < x
  cotrans {x y z : α} : Scalar.isNumber z = true → x < y → x < z ∨ z < y
  bounded_iff {x : α} : Scalar.bounded x = true ↔ x < Scalar.infinity
  eq_infinity {x : α} : Scalar.IsTime x → ¬ x < Scalar.infinity → x = Scalar.infinity

namespace Ordered

variable {α : Type} [Scalar α] [Ordered α] {x y z : α}

theorem trans (hz : Scalar.isNumber z = true) (hxy : x < y) (hyz : y < z) : x < z :=
  (cotrans hz hxy).resolve_right (asymm hyz)

/-- A number that is not less than another one is more than what is less than that one. -/
theorem lt_of_lt_of_not_lt (hz : Scalar.isNumber z = true) (hxy : x < y) (hzy : ¬ z < y) : x < z :=
  (cotrans hz hxy).resolve_right hzy

end Ordered

/-- The rationals up to the one that stands for infinity are in order. -/
instance orderedRational : Ordered ℚ where
  asymm := lt_asymm
  cotrans _ hxy := (lt_or_ge _ _).imp_right fun hzx => hzx.trans_lt hxy
  bounded_iff := decide_eq_true_iff
  eq_infinity h hnot := le_antisymm (not_lt.mp h.2) (not_lt.mp hnot)

end CausalBlocks
