import Interpolant.Proofs.BinaryFloat

/-! # Rounded scalars

What rounding leaves alone: one stays neutral, a number divided by itself is one, and zero times a
finite number is zero. An operation whose exact result is too large gives an infinity, which is lost
once it meets a zero or another infinity: the result is then no number, and nothing computed from it
is one again. Exact arithmetic rounds nothing and loses nothing.
-/

namespace Interpolant

universe u

open OrderedScalar

/-- Arithmetic that may round and overflow, but keeps to the laws of zero and one. -/
class RoundedScalar (α : Type u) [Scalar α] [OrderedScalar α] : Prop where
  isFinite_zero : IsFinite (0 : α)
  isFinite_one : IsFinite (1 : α)
  isFinite_congr {a b : α} : (a == b) = true → (IsFinite a ↔ IsFinite b)
  sub_congr {a a' b b' : α} : (a == a') = true → (b == b') = true → IsFinite a → IsFinite b →
    (a - b == a' - b') = true
  isNumber_sub {a b : α} : IsFinite a → IsFinite b → IsNumber (a - b)
  isNumber_mul {a b : α} : IsFinite a → IsFinite b → IsNumber (a * b)
  isNumber_div {a b : α} : IsNumber a → IsFinite b → ¬ (b == 0) = true → IsNumber (a / b)
  number_of_add {a b : α} : IsNumber (a + b) → IsNumber a ∧ IsNumber b
  number_of_mul {a b : α} : IsNumber (a * b) → IsNumber a ∧ IsNumber b
  number_of_div {a b : α} : IsNumber (a / b) → IsNumber a ∧ IsNumber b
  one_mul {a b : α} : (a == 1) = true → IsNumber b → (a * b == b) = true
  div_self {a b : α} : (a == b) = true → IsFinite b → ¬ (b == 0) = true → (a / b == 1) = true
  zero_mul {a b : α} : (a == 0) = true → IsFinite b → (a * b == 0) = true
  mul_zero {a b : α} : IsFinite a → (b == 0) = true → (a * b == 0) = true
  zero_div {a b : α} : (a == 0) = true → IsNumber b → ¬ (b == 0) = true → (a / b == 0) = true
  zero_add {a b : α} : (a == 0) = true → IsNumber b → (a + b == b) = true
  add_zero {a b : α} : IsNumber a → (b == 0) = true → (a + b == a) = true
  finite_of_zero_mul {a b : α} : (a == 0) = true → IsNumber (a * b) → IsFinite b
  finite_of_mul_zero {a b : α} : (b == 0) = true → IsNumber (a * b) → IsFinite a
  finite_of_div {a b : α} : IsNumber (a / b) → IsFinite a ∨ IsFinite b

instance (priority := low) exactRoundedScalar {K : Type u} [Field K] [LinearOrder K] :
    RoundedScalar K where
  isFinite_zero := trivial
  isFinite_one := trivial
  isFinite_congr _ := Iff.rfl
  sub_congr left right _ _ := by
    obtain rfl := beq_iff_eq.mp left
    obtain rfl := beq_iff_eq.mp right
    exact beq_self_eq_true _
  isNumber_sub _ _ := beq_self_eq_true _
  isNumber_mul _ _ := beq_self_eq_true _
  isNumber_div _ _ _ := beq_self_eq_true _
  number_of_add _ := ⟨beq_self_eq_true _, beq_self_eq_true _⟩
  number_of_mul _ := ⟨beq_self_eq_true _, beq_self_eq_true _⟩
  number_of_div _ := ⟨beq_self_eq_true _, beq_self_eq_true _⟩
  one_mul one _ := by
    obtain rfl := beq_iff_eq.mp one
    exact beq_iff_eq.mpr (one_mul _)
  div_self same _ nonzero := by
    obtain rfl := beq_iff_eq.mp same
    exact beq_iff_eq.mpr (div_self fun zero => nonzero (beq_iff_eq.mpr zero))
  zero_mul zero _ := by
    obtain rfl := beq_iff_eq.mp zero
    exact beq_iff_eq.mpr (zero_mul _)
  mul_zero _ zero := by
    obtain rfl := beq_iff_eq.mp zero
    exact beq_iff_eq.mpr (mul_zero _)
  zero_div zero _ _ := by
    obtain rfl := beq_iff_eq.mp zero
    exact beq_iff_eq.mpr (zero_div _)
  zero_add zero _ := by
    obtain rfl := beq_iff_eq.mp zero
    exact beq_iff_eq.mpr (zero_add _)
  add_zero _ zero := by
    obtain rfl := beq_iff_eq.mp zero
    exact beq_iff_eq.mpr (add_zero _)
  finite_of_zero_mul _ _ := trivial
  finite_of_mul_zero _ _ := trivial
  finite_of_div _ := .inl trivial

namespace BinaryFloat

open Float.Model

variable {α : Type} [Scalar α] [BinaryFloat α]

theorem beq_eq_unpacked (a b : α) : (a == b) = (unpacked a).beq (unpacked b) := beq_eq a b

theorem beq_zero_iff {a : α} : (a == 0) = true ↔ ∃ s, unpacked a = .zero s := by
  rw [beq_eq_unpacked, unpacked_zero, Binary.beq_zero_iff]

theorem unpacked_ne_zero {a : α} (nonzero : ¬ (a == 0) = true) (s : UnpackedFloat.Sign) :
    unpacked a ≠ .zero s :=
  fun zero => nonzero (beq_zero_iff.mpr ⟨s, zero⟩)

theorem unpacked_of_beq_one {a : α} (one : (a == 1) = true) :
    unpacked a = Binary.unit (format α) := by
  rw [beq_eq_unpacked] at one
  rcases Binary.eq_or_zeros_of_beq one with same | ⟨-, s, zero⟩
  · exact same.trans unpacked_one
  · exact nomatch unpacked_one.symm.trans zero

theorem beq_of_unpacked_eq {a b : α} (same : unpacked a = unpacked b)
    (number : (unpacked b).isNaN = false) : (a == b) = true := by
  rw [beq_eq_unpacked, same]
  exact Binary.beq_self number

theorem beq_of_zeros {a b : α} {s s' : UnpackedFloat.Sign} (left : unpacked a = .zero s)
    (right : unpacked b = .zero s') : (a == b) = true := by
  rw [beq_eq_unpacked, left, right]
  rfl

theorem eq_or_zeros_of_beq {a b : α} (same : (a == b) = true) :
    unpacked a = unpacked b ∨ (∃ s, unpacked a = .zero s) ∧ ∃ s, unpacked b = .zero s := by
  rw [beq_eq_unpacked] at same
  exact Binary.eq_or_zeros_of_beq same

instance roundedScalar : RoundedScalar α where
  isFinite_zero := congrArg (·.isFinite) unpacked_zero
  isFinite_one := congrArg (·.isFinite) unpacked_one
  isFinite_congr {a b} same := by
    rcases eq_or_zeros_of_beq same with same | ⟨⟨s, zero⟩, ⟨s', zero'⟩⟩
    · exact iff_of_eq (congrArg (·.isFinite = true) same)
    · exact iff_of_true (congrArg (·.isFinite) zero) (congrArg (·.isFinite) zero')
  sub_congr {a a' b b'} left right aFinite bFinite := by
    have number := Binary.isNaN_sub (canonical_unpacked a) (canonical_unpacked b) aFinite bFinite
    rw [beq_eq_unpacked] at left right
    rcases Binary.sub_congr (format α) left right aFinite bFinite with same | ⟨zero, zero'⟩
    · have held := congrArg (Binary.held (format α)) same
      rw [← unpacked_sub] at held
      refine beq_of_unpacked_eq (held.trans (unpacked_sub a' b').symm) ?_
      rw [unpacked_sub, Binary.isNaN_held]
      exact same ▸ number
    · rw [← Binary.held_eq_zero_iff, ← unpacked_sub] at zero zero'
      obtain ⟨s, zero⟩ := zero
      obtain ⟨s', zero'⟩ := zero'
      exact beq_of_zeros zero zero'
  isNumber_sub {a b} left right := by
    rw [isNumber_iff, unpacked_sub, Binary.isNaN_held]
    exact Binary.isNaN_sub (canonical_unpacked a) (canonical_unpacked b) left right
  isNumber_mul left right := by
    rw [isNumber_iff, unpacked_mul, Binary.isNaN_held]
    exact Binary.isNaN_mul left right
  isNumber_div left right nonzero := by
    rw [isNumber_iff, unpacked_div, Binary.isNaN_held]
    exact Binary.isNaN_div (isNumber_iff.mp left) right (unpacked_ne_zero nonzero)
  number_of_add number := by
    rw [isNumber_iff, unpacked_add, Binary.isNaN_held] at number
    obtain ⟨left, right⟩ := Binary.isNaN_of_add number
    exact ⟨isNumber_iff.mpr left, isNumber_iff.mpr right⟩
  number_of_mul number := by
    rw [isNumber_iff, unpacked_mul, Binary.isNaN_held] at number
    obtain ⟨left, right⟩ := Binary.isNaN_of_mul number
    exact ⟨isNumber_iff.mpr left, isNumber_iff.mpr right⟩
  number_of_div number := by
    rw [isNumber_iff, unpacked_div, Binary.isNaN_held] at number
    obtain ⟨left, right⟩ := Binary.isNaN_of_div number
    exact ⟨isNumber_iff.mpr left, isNumber_iff.mpr right⟩
  one_mul {a b} one number := by
    have number := isNumber_iff.mp number
    refine beq_of_unpacked_eq ?_ number
    rw [unpacked_mul, unpacked_of_beq_one one, Binary.unit_mul (canonical_unpacked b) number,
      held_unpacked]
  div_self {a b} same finite nonzero := by
    have apart := unpacked_ne_zero nonzero
    have same := (eq_or_zeros_of_beq same).resolve_right fun ⟨_, s, zero⟩ => apart s zero
    have one : Binary.held (format α) (Binary.unit (format α)) = unpacked (1 : α) := by
      rw [← unpacked_one, held_unpacked]
    refine beq_of_unpacked_eq ?_ (unpacked_one (α := α) ▸ rfl)
    rw [unpacked_div, same, ← one]
    refine congrArg _ ?_
    change (unpacked b).isFinite at finite
    cases here : unpacked b with
    | notANumber => rw [here] at finite; contradiction
    | infinity => rw [here] at finite; contradiction
    | zero s => exact absurd here (apart s)
    | finite s m e pos => exact Binary.div_self_of_finite canonical_unit s m e pos
  zero_mul {a b} zero finite := by
    obtain ⟨s, zero⟩ := beq_zero_iff.mp zero
    rw [beq_zero_iff, unpacked_mul, zero, Binary.held_eq_zero_iff]
    exact Binary.zero_mul_of_isFinite s finite
  mul_zero {a b} finite zero := by
    obtain ⟨s, zero⟩ := beq_zero_iff.mp zero
    rw [beq_zero_iff, unpacked_mul, zero, Binary.held_eq_zero_iff]
    exact Binary.mul_zero_of_isFinite s finite
  zero_div {a b} zero number nonzero := by
    obtain ⟨s, zero⟩ := beq_zero_iff.mp zero
    rw [beq_zero_iff, unpacked_div, zero, Binary.held_eq_zero_iff]
    exact Binary.zero_div_of_nonzero s (isNumber_iff.mp number) (unpacked_ne_zero nonzero)
  zero_add {a b} zero number := by
    obtain ⟨s, zero⟩ := beq_zero_iff.mp zero
    have sum := unpacked_add a b
    rw [zero] at sum
    rcases Binary.zero_add_cases (format α) s (isNumber_iff.mp number) with
      same | ⟨⟨t, zero⟩, ⟨t', zero'⟩⟩
    · rw [same, held_unpacked] at sum
      exact beq_of_unpacked_eq sum (isNumber_iff.mp number)
    · rw [zero'] at sum
      exact beq_of_zeros sum zero
  add_zero {a b} number zero := by
    obtain ⟨s, zero⟩ := beq_zero_iff.mp zero
    have sum := unpacked_add a b
    rw [zero] at sum
    rcases Binary.add_zero_cases (format α) s (isNumber_iff.mp number) with
      same | ⟨⟨t, zero⟩, ⟨t', zero'⟩⟩
    · rw [same, held_unpacked] at sum
      exact beq_of_unpacked_eq sum (isNumber_iff.mp number)
    · rw [zero'] at sum
      exact beq_of_zeros sum zero
  finite_of_zero_mul {a b} zero number := by
    obtain ⟨s, zero⟩ := beq_zero_iff.mp zero
    rw [isNumber_iff, unpacked_mul, Binary.isNaN_held, zero] at number
    exact Binary.isFinite_of_zero_mul number
  finite_of_mul_zero {a b} zero number := by
    obtain ⟨s, zero⟩ := beq_zero_iff.mp zero
    rw [isNumber_iff, unpacked_mul, Binary.isNaN_held, zero] at number
    exact Binary.isFinite_of_mul_zero number
  finite_of_div {a b} number := by
    rw [isNumber_iff, unpacked_div, Binary.isNaN_held] at number
    exact Binary.isFinite_of_div number

/-- Equal numbers have a difference only if they are finite. -/
theorem not_isNumber_sub {a b : α} (same : (a == b) = true) (infinite : ¬ IsFinite a) :
    ¬ IsNumber (a - b) := by
  rcases eq_or_zeros_of_beq same with equal | ⟨⟨s, zero⟩, -⟩
  · have number := isNumber_iff.mp (isNumber_of_beq same)
    change ¬ (unpacked a).isFinite = true at infinite
    rw [isNumber_iff, unpacked_sub, Binary.isNaN_held, ← equal]
    cases here : unpacked a with
    | notANumber => rw [here] at number; contradiction
    | infinity s => rw [Binary.sub_infinity_self]; exact nofun
    | _ => rw [here] at infinite; exact absurd rfl infinite
  · exact absurd (congrArg (·.isFinite) zero) infinite

end BinaryFloat

end Interpolant
