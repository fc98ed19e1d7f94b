import Interpolant.Size
import Interpolant.Proofs.BinaryNearest
import Interpolant.Proofs.RoundedScalar

/-! # Order through rounding

The operations of binary floating point keep to the order of their exact results, infinities
included: a greater summand never gives a smaller sum, nor does a greater factor give a smaller
product with a number that is not negative. Sizes are converted in order, too.
-/

namespace Interpolant

open Float.Model OrderedScalar

/-- Sizes are converted to the nearest number, and none of them is out of range. -/
class BinarySizes (α : Type) [Scalar α] [BinaryFloat α] : Prop where
  bits_ofSize (n : Nat) : n ≤ Size.largest → BinaryFloat.bits (Scalar.ofSize n : α) =
    UnpackedFloat.pack (BinaryFloat.format α) (.ofNat (BinaryFloat.format α) n)
  room : 64 < Binary.maxExponent (BinaryFloat.format α) + (BinaryFloat.format α).mantissaBits

private theorem toNat_toUInt64 {n : Nat} (size : n ≤ Size.largest) : n.toUInt64.toNat = n := by
  rw [Nat.toUInt64, UInt64.toNat_ofNat', Nat.mod_eq_of_lt]
  exact Nat.lt_of_le_pred (Nat.two_pow_pos 64) size

instance : BinarySizes Float where
  bits_ofSize n size := by
    change UnpackedFloat.pack .binary64 (.ofNat .binary64 n.toUInt64.toNat) = _
    rw [toNat_toUInt64 size]
    rfl
  room := by decide

instance : BinarySizes Float32 where
  bits_ofSize n size := by
    change UnpackedFloat.pack .binary32 (.ofNat .binary32 n.toUInt64.toNat) = _
    rw [toNat_toUInt64 size]
    rfl
  room := by decide

namespace BinaryFloat

variable {α : Type} [Scalar α] [BinaryFloat α] {a b c : α} {q r : ℚ}

/-- The rational number that a finite number stands for. -/
def value (a : α) : ℚ := Binary.value (unpacked a)

@[simp] theorem value_zero : value (0 : α) = 0 := by
  rw [value, unpacked_zero]
  rfl

@[simp] theorem value_one : value (1 : α) = 1 := by
  rw [value, unpacked_one, Binary.unit, Binary.value_positive, Nat.cast_pow, Nat.cast_ofNat,
    ← zpow_natCast, ← zpow_add₀ two_ne_zero, add_neg_cancel, zpow_zero]

theorem le_iff_value (left : IsFinite a) (right : IsFinite b) : a ≤ b ↔ value a ≤ value b := by
  rw [le_iff_extended, Binary.extended_of_isFinite left, Binary.extended_of_isFinite right,
    WithBot.coe_le_coe, WithTop.coe_le_coe]
  exact ⟨fun ⟨_, _, up⟩ => up, fun up =>
    ⟨Binary.isNaN_of_isFinite left, Binary.isNaN_of_isFinite right, up⟩⟩

theorem lt_iff_value (left : IsFinite a) (right : IsFinite b) : a < b ↔ value a < value b := by
  rw [OrderedScalar.lt_iff, le_iff_value left right, le_iff_value right left, lt_iff_le_not_ge]

theorem beq_iff_value (left : IsFinite a) (right : IsFinite b) :
    (a == b) = true ↔ value a = value b := by
  rw [beq_iff, le_iff_value left right, le_iff_value right left, le_antisymm_iff]

theorem exists_least_units (a : α) : ∃ j : ℤ, value a = j * Binary.leastUnit (format α) :=
  Binary.exists_least_units (canonical_unpacked a)

/-- The exact result `q` is rounded to `a`, which is an infinity if that is out of range. -/
def RoundsTo (q : ℚ) (a : α) : Prop :=
  ∃ u, Binary.Rounds (format α) q u ∧ unpacked a = Binary.held (format α) u

theorem roundsTo_add (left : IsFinite a) (right : IsFinite b) :
    RoundsTo (value a + value b) (a + b) :=
  ⟨_, Binary.rounds_add (canonical_unpacked a) (canonical_unpacked b) left right, unpacked_add a b⟩

theorem roundsTo_sub (left : IsFinite a) (right : IsFinite b) :
    RoundsTo (value a - value b) (a - b) :=
  ⟨_, Binary.rounds_sub (canonical_unpacked a) (canonical_unpacked b) left right, unpacked_sub a b⟩

theorem roundsTo_mul (left : IsFinite a) (right : IsFinite b) :
    RoundsTo (value a * value b) (a * b) :=
  ⟨_, Binary.rounds_mul (canonical_unpacked a) (canonical_unpacked b) left right, unpacked_mul a b⟩

theorem roundsTo_div (left : IsFinite a) (right : IsFinite b) (nonzero : value b ≠ 0) :
    RoundsTo (value a / value b) (a / b) := by
  refine ⟨_, Binary.rounds_div left right fun s zero => nonzero ?_, unpacked_div a b⟩
  rw [value, zero]
  rfl

theorem roundsTo_ofSize [BinarySizes α] {n : Nat} (size : n ≤ Size.largest) :
    RoundsTo n (Scalar.ofSize n : α) := by
  have rounds := Binary.rounds_ofNat (format α) n
  refine ⟨_, rounds, ?_⟩
  rw [unpacked, BinarySizes.bits_ofSize n size]
  exact Binary.unpack_pack rounds.canonical

namespace RoundsTo

theorem isNaN (rounded : RoundsTo q a) : (unpacked a).isNaN = false := by
  obtain ⟨u, rounds, same⟩ := rounded
  rw [same, Binary.isNaN_held]
  exact Binary.isNaN_of_isFinite rounds.finite

theorem rounds (rounded : RoundsTo q a) (finite : IsFinite a) :
    Binary.Rounds (format α) q (unpacked a) := by
  obtain ⟨u, rounds, same⟩ := rounded
  change (unpacked a).isFinite = true at finite
  rcases Binary.held_cases (format α) rounds.finite with inside | ⟨-, large⟩ | ⟨-, large⟩
  · rw [same, inside]
    exact rounds
  · rw [same, large] at finite
    contradiction
  · rw [same, large] at finite
    contradiction

theorem le_of_lt (left : RoundsTo q a) (right : RoundsTo r b) (less : q < r) : a ≤ b := by
  refine le_iff_extended.mpr ⟨left.isNaN, right.isNaN, ?_⟩
  obtain ⟨u, rounds, same⟩ := left
  obtain ⟨v, rounds', same'⟩ := right
  rw [same, same']
  exact Binary.extended_held_mono rounds.canonical rounds'.canonical rounds.finite rounds'.finite
    (rounds.mono rounds' less)

theorem isFinite_of_abs_le (rounded : RoundsTo q a) (finite : IsFinite b)
    (bound : |q| ≤ |value b|) : IsFinite a := by
  obtain ⟨u, rounds, same⟩ := rounded
  have inside := Binary.held_of_abs_le rounds.canonical (canonical_unpacked b) finite
    (held_unpacked b) (rounds.abs_le_of_abs_le (canonical_unpacked b) bound)
  change (unpacked a).isFinite = true
  rw [same, inside]
  exact rounds.finite

theorem value_eq_of_units {z e : ℤ} (rounded : RoundsTo q a) (finite : IsFinite a)
    (units : q = z * 2 ^ e) (least : (format α).minExponent ≤ e)
    (room : |z| < 2 ^ (format α).mantissaBits) : value a = q := by
  subst units
  exact (rounded.rounds finite).eq_of_units least room

theorem beq_of_close (rounded : RoundsTo q a) (finite : IsFinite b)
    (close : 2 * |q - value b| < Binary.roundoff (format α) * |value b|) : (a == b) = true := by
  obtain ⟨u, rounds, same⟩ := rounded
  have equal := rounds.eq_of_close (canonical_unpacked b) close
  have inside := Binary.held_of_abs_le rounds.canonical (canonical_unpacked b) finite
    (held_unpacked b) (congrArg (|·|) equal).le
  rw [inside] at same
  have finite' : IsFinite a := (congrArg (·.isFinite) same).trans rounds.finite
  rw [beq_iff_value finite' finite, value, same, equal]
  rfl

end RoundsTo

/-- Sums and differences of numbers lose nothing below the least unit. -/
theorem value_add_error (left : IsFinite a) (right : IsFinite b) (finite : IsFinite (a + b)) :
    |value (a + b) - (value a + value b)| ≤
      Binary.roundoff (format α) * |value a + value b| := by
  refine ((roundsTo_add left right).rounds finite).error_of_units ?_
  obtain ⟨j, units⟩ := exists_least_units a
  obtain ⟨k, units'⟩ := exists_least_units b
  exact ⟨j + k, by rw [units, units', Int.cast_add, add_mul]⟩

theorem value_sub_error (left : IsFinite a) (right : IsFinite b) (finite : IsFinite (a - b)) :
    |value (a - b) - (value a - value b)| ≤
      Binary.roundoff (format α) * |value a - value b| := by
  refine ((roundsTo_sub left right).rounds finite).error_of_units ?_
  obtain ⟨j, units⟩ := exists_least_units a
  obtain ⟨k, units'⟩ := exists_least_units b
  exact ⟨j - k, by rw [units, units', Int.cast_sub, sub_mul]⟩

theorem size_error {n : Nat} {u : UnpackedFloat} (rounds : Binary.Rounds (format α) n u) :
    |Binary.value u - n| ≤ Binary.roundoff (format α) * n := by
  have whole := Binary.exists_units_of_le (Binary.minExponent_nonpos (format α)) n
  rw [zpow_zero, mul_one, Int.cast_natCast] at whole
  simpa only [Nat.abs_cast] using rounds.error_of_units whole

section

variable [BinarySizes α] {i j n : Nat}

theorem isFinite_ofSize (size : n ≤ Size.largest) : IsFinite (Scalar.ofSize n : α) := by
  obtain ⟨u, rounds, same⟩ := roundsTo_ofSize (α := α) size
  have room := BinarySizes.room (α := α)
  have least := Binary.minExponent_eq (format α)
  have width := (format α).hm
  have word : (n : ℚ) < 2 ^ 64 := by
    exact_mod_cast Nat.lt_of_le_pred (Nat.two_pow_pos 64) size
  have near := (abs_sub_le_iff.mp (size_error rounds)).1
  have part := mul_le_mul_of_nonneg_right (Binary.roundoff_le (format α)) (Nat.cast_nonneg n)
  have nonneg : 0 ≤ Binary.value u := by
    have far := (abs_sub_le_iff.mp (size_error rounds)).2
    linarith [Nat.cast_nonneg (α := ℚ) n]
  have small : |Binary.value u| < 2 ^ (65 : ℤ) := by
    have double : (2 ^ (65 : ℤ) : ℚ) = 2 * 2 ^ 64 := by norm_num
    rw [abs_of_nonneg nonneg, double]
    linarith
  have inside : Binary.held (format α) u = u := by
    refine Binary.held_of_abs_lt rounds.canonical ?_
      (small.trans_le (zpow_le_zpow_right₀ one_le_two (by omega)))
    rw [Format.mantissaBits] at room
    omega
  change (unpacked (Scalar.ofSize n : α)).isFinite = true
  rw [same, inside]
  exact rounds.finite

theorem ofSize_le_ofSize (le : i ≤ j) (size : j ≤ Size.largest) :
    (Scalar.ofSize i : α) ≤ Scalar.ofSize j := by
  rcases le.lt_or_eq with less | rfl
  · exact (roundsTo_ofSize (le.trans size)).le_of_lt (roundsTo_ofSize size) (Nat.cast_lt.mpr less)
  · exact le_self (isFinite_ofSize size)

theorem value_ofSize_error (size : n ≤ Size.largest) :
    |value (Scalar.ofSize n : α) - n| ≤ Binary.roundoff (format α) * n :=
  size_error ((roundsTo_ofSize size).rounds (isFinite_ofSize size))

theorem one_le_value_ofSize (pos : 1 ≤ n) (size : n ≤ Size.largest) :
    1 ≤ value (Scalar.ofSize n : α) := by
  have rounds := (roundsTo_ofSize (α := α) size).rounds (isFinite_ofSize size)
  have least := rounds.ge_of_ge (canonical_unpacked (1 : α))
  change value (1 : α) ≤ n → value (1 : α) ≤ _ at least
  rw [value_one] at least
  exact least (Nat.one_le_cast.mpr pos)

@[simp] theorem value_ofSize_zero : value (Scalar.ofSize 0 : α) = 0 := by
  have near := value_ofSize_error (α := α) (Nat.zero_le Size.largest)
  rwa [Nat.cast_zero, mul_zero, sub_zero, abs_nonpos_iff] at near

end

theorem mul_congr (same : (a == b) = true) (right : IsFinite b) (finite : IsFinite c) :
    (a * c == b * c) = true := by
  rcases eq_or_zeros_of_beq same with equal | ⟨zero, zero'⟩
  · refine beq_of_unpacked_eq ?_ (roundsTo_mul right finite).isNaN
    rw [unpacked_mul, unpacked_mul, equal]
  · exact beq_trans (RoundedScalar.zero_mul (beq_zero_iff.mpr zero) finite)
      (beq_symm (RoundedScalar.zero_mul (beq_zero_iff.mpr zero') finite))

/-- A product with a number that is not negative keeps to the order of the other factor. -/
theorem mul_le_mul_right (left : IsFinite a) (right : IsFinite b) (finite : IsFinite c)
    (nonneg : 0 ≤ value c) (up : a ≤ b) : a * c ≤ b * c := by
  have order := (le_iff_value left right).mp up
  rcases nonneg.lt_or_eq with positive | zero
  · rcases order.lt_or_eq with less | same
    · exact (roundsTo_mul left finite).le_of_lt (roundsTo_mul right finite)
        (mul_lt_mul_of_pos_right less positive)
    · exact (beq_iff.mp (mul_congr ((beq_iff_value left right).mpr same) right finite)).1
  · have zero : (c == 0) = true :=
      (beq_iff_value finite RoundedScalar.isFinite_zero).mpr (zero.symm.trans value_zero.symm)
    exact (beq_iff.mp (beq_trans (RoundedScalar.mul_zero left zero)
      (beq_symm (RoundedScalar.mul_zero right zero)))).1

theorem add_congr (same : (a == b) = true) (finite : IsFinite c) (right : IsFinite b) :
    (c + a == c + b) = true := by
  rcases eq_or_zeros_of_beq same with equal | ⟨zero, zero'⟩
  · refine beq_of_unpacked_eq ?_ (roundsTo_add finite right).isNaN
    rw [unpacked_add, unpacked_add, equal]
  · have number := isNumber_of_isFinite finite
    exact beq_trans (RoundedScalar.add_zero number (beq_zero_iff.mpr zero))
      (beq_symm (RoundedScalar.add_zero number (beq_zero_iff.mpr zero')))

theorem unpacked_add_infinity {s : UnpackedFloat.Sign} (finite : IsFinite c)
    (infinite : unpacked a = .infinity s) : unpacked (c + a) = .infinity s := by
  change (unpacked c).isFinite = true at finite
  rw [unpacked_add, infinite]
  cases here : unpacked c with
  | notANumber => rw [here] at finite; contradiction
  | infinity => rw [here] at finite; contradiction
  | _ => rfl

theorem isNumber_add (finite : IsFinite c) (number : IsNumber a) : IsNumber (c + a) := by
  rw [isNumber_iff] at number ⊢
  rcases Binary.isFinite_or_infinity number with aFinite | ⟨s, infinite⟩
  · exact (roundsTo_add finite aFinite).isNaN
  · rw [unpacked_add_infinity finite infinite]
    rfl

/-- A sum with a finite number keeps to the order of the other summand, which may be infinite. -/
theorem add_le_add_left (finite : IsFinite c) (up : a ≤ b) : c + a ≤ c + b := by
  obtain ⟨left, right, order⟩ := le_iff_extended.mp up
  have number := isNumber_add finite (isNumber_iff.mpr left)
  have number' := isNumber_add finite (isNumber_iff.mpr right)
  rw [isNumber_iff] at number number'
  rcases Binary.isFinite_or_infinity left with aFinite | ⟨_ | _, infinite⟩
  · rcases Binary.isFinite_or_infinity right with bFinite | ⟨_ | _, infinite'⟩
    · rcases ((le_iff_value aFinite bFinite).mp up).lt_or_eq with less | same
      · exact (roundsTo_add finite aFinite).le_of_lt (roundsTo_add finite bFinite)
          (add_lt_add_right less _)
      · exact (beq_iff.mp (add_congr ((beq_iff_value aFinite bFinite).mpr same) finite bFinite)).1
    · rw [infinite', Binary.extended_of_isFinite aFinite] at order
      exact absurd order (WithBot.bot_lt_coe _).not_ge
    · refine le_iff_extended.mpr ⟨number, number', ?_⟩
      rw [unpacked_add_infinity finite infinite']
      exact le_top
  · refine le_iff_extended.mpr ⟨number, number', ?_⟩
    rw [unpacked_add_infinity finite infinite]
    exact bot_le
  · have same : unpacked b = .infinity .positive := by
      rw [infinite] at order
      rcases Binary.isFinite_or_infinity right with bFinite | ⟨_ | _, infinite'⟩
      · rw [Binary.extended_of_isFinite bFinite] at order
        exact absurd order (WithBot.coe_lt_coe.mpr (WithTop.coe_lt_top _)).not_ge
      · rw [infinite'] at order
        exact absurd order (WithBot.bot_lt_coe _).not_ge
      · exact infinite'
    refine le_iff_extended.mpr ⟨number, number', ?_⟩
    rw [unpacked_add_infinity finite infinite, unpacked_add_infinity finite same]

end BinaryFloat

end Interpolant
