import Interpolant.Scalar
import Mathlib.Algebra.Order.Field.Basic

/-! # Ordered scalars

What the checks of a table rely on: comparisons that agree with one order of the numbers, and
differences that vanish for equal numbers only. Exact arithmetic in a linearly ordered field has
these properties, and so has binary floating point with gradual underflow, where they leave out the
values that are no numbers. What is evaluated over rounded numbers approximates what is evaluated in
exact arithmetic.
-/

namespace Interpolant

universe u

/-- Comparisons that order the numbers among all values, and differences that tell finite numbers
apart. -/
class OrderedScalar (α : Type u) [Scalar α] where
  /-- The value is a number, and not an infinite one. -/
  IsFinite : α → Prop
  le_self {a : α} : IsFinite a → a ≤ a
  le_trans {a b c : α} : a ≤ b → b ≤ c → a ≤ c
  le_total {a b : α} : a ≤ a → b ≤ b → a ≤ b ∨ b ≤ a
  lt_iff {a b : α} : a < b ↔ a ≤ b ∧ ¬ b ≤ a
  beq_iff {a b : α} : (a == b) = true ↔ a ≤ b ∧ b ≤ a
  sub_beq_zero_iff {a b : α} : (a - b == 0) = true ↔ IsFinite a ∧ IsFinite b ∧ (a == b) = true

namespace OrderedScalar

variable {α : Type u} [Scalar α] [OrderedScalar α]

omit [OrderedScalar α] in
/-- The value is a number, finite or not: it compares equal to itself. -/
def IsNumber (a : α) : Prop := (a == a) = true

omit [OrderedScalar α] in
instance decidableIsNumber (a : α) : Decidable (IsNumber a) :=
  inferInstanceAs (Decidable (_ = _))

theorem isNumber_iff {a : α} : IsNumber a ↔ a ≤ a :=
  beq_iff.trans (and_self_iff)

theorem isNumber_of_isFinite {a : α} (finite : IsFinite a) : IsNumber a :=
  isNumber_iff.mpr (le_self finite)

theorem beq_symm {a b : α} (same : (a == b) = true) : (b == a) = true :=
  beq_iff.mpr (beq_iff.mp same).symm

theorem beq_trans {a b c : α} (first : (a == b) = true) (second : (b == c) = true) :
    (a == c) = true := by
  obtain ⟨below, above⟩ := beq_iff.mp first
  obtain ⟨below', above'⟩ := beq_iff.mp second
  exact beq_iff.mpr ⟨le_trans below below', le_trans above' above⟩

theorem isNumber_of_beq {a b : α} (same : (a == b) = true) : IsNumber a :=
  beq_trans same (beq_symm same)

theorem lt_of_not_le {a b : α} (left : IsNumber a) (right : IsNumber b) (up : ¬ b ≤ a) : a < b :=
  lt_iff.mpr ⟨(le_total (isNumber_iff.mp left) (isNumber_iff.mp right)).resolve_right up, up⟩

theorem not_lt_of_le {a b : α} (up : b ≤ a) : ¬ a < b :=
  fun less => (lt_iff.mp less).2 up

theorem le_of_not_lt {a b : α} (left : IsNumber a) (right : IsNumber b) (up : ¬ a < b) : b ≤ a := by
  rcases le_total (isNumber_iff.mp left) (isNumber_iff.mp right) with below | above
  · exact Decidable.byContradiction fun apart => up (lt_iff.mpr ⟨below, apart⟩)
  · exact above

theorem lt_of_lt_of_le {a b c : α} (first : a < b) (second : b ≤ c) : a < c := by
  obtain ⟨below, up⟩ := lt_iff.mp first
  exact lt_iff.mpr ⟨le_trans below second, fun down => up (le_trans second down)⟩

theorem lt_trans {a b c : α} (first : a < b) (second : b < c) : a < c :=
  lt_of_lt_of_le first (lt_iff.mp second).1

theorem sub_not_beq_zero {a b : α} (apart : ¬ (a == b) = true) : ¬ (a - b == 0) = true :=
  fun vanishes => apart (sub_beq_zero_iff.mp vanishes).2.2

theorem not_beq_of_lt {a b : α} (less : a < b) : ¬ (a == b) = true :=
  fun same => (lt_iff.mp less).2 (beq_iff.mp same).2

theorem lt_of_lt_of_beq {a b c : α} (less : a < b) (same : (b == c) = true) : a < c :=
  lt_of_lt_of_le less (beq_iff.mp same).1

end OrderedScalar

instance (priority := low) exactScalar {K : Type u} [Field K] [LinearOrder K] : Scalar K where
  ofSize n := n

instance (priority := low) exactOrderedScalar {K : Type u} [Field K] [LinearOrder K] :
    OrderedScalar K where
  IsFinite _ := True
  le_self _ := le_refl _
  le_trans := le_trans
  le_total _ _ := le_total _ _
  lt_iff := lt_iff_le_not_ge
  beq_iff := beq_iff_eq.trans le_antisymm_iff
  sub_beq_zero_iff {a b} := by simp only [beq_iff_eq, sub_eq_zero, true_and]

end Interpolant
