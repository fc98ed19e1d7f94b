import Interpolant.Proofs.BinaryArithmetic
import Interpolant.Proofs.OrderedScalar

/-! # Binary floating point scalars

A `BinaryFloat` computes on the bits of one format, each operation rounding its exact result into
that format; `Float` and `Float32` are two of them. Their numbers are ordered by their values, and
underflow is gradual, so that a difference never vanishes between different numbers.
-/

namespace Interpolant

open Float.Model

/-- A number type with the bits and the operations of a binary floating point format. -/
class BinaryFloat (α : Type) [Scalar α] where
  /-- The format of all numbers. -/
  format : Format
  /-- The bits of a number. -/
  bits : α → BitVec format.numBits
  bits_zero : bits 0 = UnpackedFloat.pack format (.zero .positive)
  unpack_one : UnpackedFloat.unpack format (bits 1) = Binary.unit format
  bits_add (a b : α) : bits (a + b) = UnpackedFloat.pack format
    (.add format (UnpackedFloat.unpack format (bits a)) (UnpackedFloat.unpack format (bits b)))
  bits_sub (a b : α) : bits (a - b) = UnpackedFloat.pack format
    (.sub format (UnpackedFloat.unpack format (bits a)) (UnpackedFloat.unpack format (bits b)))
  bits_mul (a b : α) : bits (a * b) = UnpackedFloat.pack format
    (.mul format (UnpackedFloat.unpack format (bits a)) (UnpackedFloat.unpack format (bits b)))
  bits_div (a b : α) : bits (a / b) = UnpackedFloat.pack format
    (.div format (UnpackedFloat.unpack format (bits a)) (UnpackedFloat.unpack format (bits b)))
  lt_iff (a b : α) : a < b ↔
    (UnpackedFloat.unpack format (bits a)).lt (UnpackedFloat.unpack format (bits b))
  le_iff (a b : α) : a ≤ b ↔
    (UnpackedFloat.unpack format (bits a)).le (UnpackedFloat.unpack format (bits b))
  beq_eq (a b : α) : (a == b) =
    (UnpackedFloat.unpack format (bits a)).beq (UnpackedFloat.unpack format (bits b))

instance float64 : BinaryFloat Float where
  format := .binary64
  bits a := a.toModel.toBits.toBitVec
  bits_zero := by decide
  unpack_one := rfl
  bits_add _ _ := rfl
  bits_sub _ _ := rfl
  bits_mul _ _ := rfl
  bits_div _ _ := rfl
  lt_iff _ _ := decide_eq_true_iff
  le_iff _ _ := decide_eq_true_iff
  beq_eq _ _ := rfl

instance float32 : BinaryFloat Float32 where
  format := .binary32
  bits a := a.toModel.toBits.toBitVec
  bits_zero := by decide
  unpack_one := rfl
  bits_add _ _ := rfl
  bits_sub _ _ := rfl
  bits_mul _ _ := rfl
  bits_div _ _ := rfl
  lt_iff _ _ := decide_eq_true_iff
  le_iff _ _ := decide_eq_true_iff
  beq_eq _ _ := rfl

namespace BinaryFloat

variable {α : Type} [Scalar α] [BinaryFloat α]

/-- What the bits of a number encode. -/
def unpacked (a : α) : UnpackedFloat := UnpackedFloat.unpack (format α) (bits a)

theorem canonical_unpacked (a : α) : Binary.Canonical (format α) (unpacked a) :=
  Binary.canonical_unpack _

theorem le_iff_extended {a b : α} : a ≤ b ↔ (unpacked a).isNaN = false ∧
    (unpacked b).isNaN = false ∧ Binary.extended (unpacked a) ≤ Binary.extended (unpacked b) :=
  (le_iff a b).trans (Binary.le_iff (canonical_unpacked a) (canonical_unpacked b))

theorem lt_iff_extended {a b : α} : a < b ↔ (unpacked a).isNaN = false ∧
    (unpacked b).isNaN = false ∧ Binary.extended (unpacked a) < Binary.extended (unpacked b) :=
  (lt_iff a b).trans (Binary.lt_iff (canonical_unpacked a) (canonical_unpacked b))

theorem beq_iff_extended {a b : α} : (a == b) = true ↔ (unpacked a).isNaN = false ∧
    (unpacked b).isNaN = false ∧ Binary.extended (unpacked a) = Binary.extended (unpacked b) := by
  rw [beq_eq]
  exact Binary.beq_iff (canonical_unpacked a) (canonical_unpacked b)

theorem unpacked_sub (a b : α) : unpacked (a - b) =
    Binary.held (format α) (.sub (format α) (unpacked a) (unpacked b)) := by
  rw [unpacked, bits_sub]
  exact Binary.unpack_pack (Binary.canonical_sub (canonical_unpacked a) (canonical_unpacked b))

@[simp] theorem unpacked_zero : unpacked (0 : α) = .zero .positive := by
  rw [unpacked, bits_zero]
  exact Binary.unpack_packedZero _ _

@[simp] theorem unpacked_one : unpacked (1 : α) = Binary.unit (format α) := unpack_one

theorem unpacked_add (a b : α) : unpacked (a + b) =
    Binary.held (format α) (.add (format α) (unpacked a) (unpacked b)) := by
  rw [unpacked, bits_add]
  exact Binary.unpack_pack (Binary.canonical_add (canonical_unpacked a) (canonical_unpacked b))

theorem unpacked_mul (a b : α) : unpacked (a * b) =
    Binary.held (format α) (.mul (format α) (unpacked a) (unpacked b)) := by
  rw [unpacked, bits_mul]
  exact Binary.unpack_pack (Binary.canonical_mul (canonical_unpacked a) (canonical_unpacked b))

theorem unpacked_div (a b : α) : unpacked (a / b) =
    Binary.held (format α) (.div (format α) (unpacked a) (unpacked b)) := by
  rw [unpacked, bits_div]
  exact Binary.unpack_pack (Binary.canonical_div (canonical_unpacked a) (canonical_unpacked b))

theorem canonical_unit : Binary.Canonical (format α) (Binary.unit (format α)) :=
  unpacked_one (α := α) ▸ canonical_unpacked 1

theorem held_unpacked (a : α) : Binary.held (format α) (unpacked a) = unpacked a := by
  refine Binary.held_unpack ?_ _
  -- A format without normal numbers has no room for the number one.
  have least : (format α).minExponent ≤ -(format α).mantissaBitsWithoutImplicit :=
    (canonical_unit (α := α)).minExponent_le
  refine lt_of_not_ge fun narrow => ?_
  have single : (format α).exponentBits = 1 := le_antisymm narrow (format α).he
  rw [Binary.minExponent_eq, Format.exponentBias, single] at least
  omega

/-- Underflow is gradual: a difference of zero is one of equal finite numbers. -/
theorem sub_beq_zero_iff {a b : α} : (a - b == 0) = true ↔
    (unpacked a).isFinite ∧ (unpacked b).isFinite ∧ (a == b) = true := by
  have vanishes : (a - b == 0) = true ↔ (unpacked a).isFinite ∧ (unpacked b).isFinite ∧
      Binary.value (unpacked a) = Binary.value (unpacked b) := by
    rw [beq_eq]
    change (unpacked (a - b)).beq (unpacked 0) ↔ _
    rw [unpacked_zero, Binary.beq_zero_iff, unpacked_sub, Binary.held_eq_zero_iff]
    exact Binary.sub_eq_zero_iff (canonical_unpacked a) (canonical_unpacked b)
  rw [vanishes, beq_iff_extended]
  refine and_congr_right fun left => and_congr_right fun right => ?_
  rw [Binary.extended_of_isFinite left, Binary.extended_of_isFinite right, WithBot.coe_inj,
    WithTop.coe_inj]
  have number := Binary.isNaN_of_isFinite left
  have number' := Binary.isNaN_of_isFinite right
  exact ⟨fun same => ⟨number, number', same⟩, fun ⟨_, _, same⟩ => same⟩

end BinaryFloat

instance binaryOrderedScalar {α : Type} [Scalar α] [BinaryFloat α] : OrderedScalar α where
  IsFinite a := (BinaryFloat.unpacked a).isFinite
  le_self {a} finite := by
    have number := Binary.isNaN_of_isFinite finite
    exact BinaryFloat.le_iff_extended.mpr ⟨number, number, le_refl _⟩
  le_trans {a b c} first second := by
    obtain ⟨left, -, below⟩ := BinaryFloat.le_iff_extended.mp first
    obtain ⟨-, right, below'⟩ := BinaryFloat.le_iff_extended.mp second
    exact BinaryFloat.le_iff_extended.mpr ⟨left, right, below.trans below'⟩
  le_total {a b} left right := by
    obtain ⟨left, -, -⟩ := BinaryFloat.le_iff_extended.mp left
    obtain ⟨right, -, -⟩ := BinaryFloat.le_iff_extended.mp right
    rcases le_total (Binary.extended (BinaryFloat.unpacked a))
      (Binary.extended (BinaryFloat.unpacked b)) with below | above
    · exact .inl (BinaryFloat.le_iff_extended.mpr ⟨left, right, below⟩)
    · exact .inr (BinaryFloat.le_iff_extended.mpr ⟨right, left, above⟩)
  lt_iff {a b} := by
    rw [BinaryFloat.lt_iff_extended, BinaryFloat.le_iff_extended, BinaryFloat.le_iff_extended,
      lt_iff_le_not_ge]
    tauto
  beq_iff {a b} := by
    rw [BinaryFloat.beq_iff_extended, BinaryFloat.le_iff_extended, BinaryFloat.le_iff_extended]
    constructor
    · rintro ⟨left, right, same⟩
      exact ⟨⟨left, right, same.le⟩, ⟨right, left, same.ge⟩⟩
    · rintro ⟨⟨left, right, below⟩, ⟨-, -, above⟩⟩
      exact ⟨left, right, below.antisymm above⟩
  sub_beq_zero_iff := BinaryFloat.sub_beq_zero_iff

/-- The values that are no numbers are the only ones that do not compare equal to themselves. -/
theorem BinaryFloat.isNumber_iff {α : Type} [Scalar α] [BinaryFloat α] {a : α} :
    OrderedScalar.IsNumber a ↔ (unpacked a).isNaN = false :=
  beq_iff_extended.trans ⟨fun ⟨number, _, _⟩ => number, fun number => ⟨number, number, rfl⟩⟩

theorem float64_isNumber_iff {a : Float} : OrderedScalar.IsNumber a ↔ a.isNaN = false :=
  BinaryFloat.isNumber_iff

theorem float64_isFinite_iff {a : Float} : OrderedScalar.IsFinite a ↔ a.isFinite = true :=
  Iff.rfl

theorem float32_isNumber_iff {a : Float32} : OrderedScalar.IsNumber a ↔ a.isNaN = false :=
  BinaryFloat.isNumber_iff

theorem float32_isFinite_iff {a : Float32} : OrderedScalar.IsFinite a ↔ a.isFinite = true :=
  Iff.rfl

end Interpolant
