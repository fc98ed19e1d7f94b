/-! # Scalars

The numbers that sample locations and sample values are made of. Only the operations are fixed
here, no law of them, so that binary floating point is a scalar just as an exact ordered field is:
an evaluation performs each operation once, in the order in which it is written.
-/

namespace Interpolant

universe u

/-- The arithmetic and the comparisons that an evaluation performs on its numbers. -/
class Scalar (α : Type u) where
  [zero : Zero α]
  [one : One α]
  [add : Add α]
  [sub : Sub α]
  [mul : Mul α]
  [div : Div α]
  [beq : BEq α]
  [lt : LT α]
  [le : LE α]
  /-- Strict comparison is a test. -/
  [decidableLT : DecidableLT α]
  /-- Weak comparison is a test. -/
  [decidableLE : DecidableLE α]
  /-- The number nearest to a size. -/
  ofSize : Nat → α

-- A number type that comes with operations of its own is read with those, hence the priorities.
section

variable {α : Type u} [Scalar α]

instance (priority := 100) scalarZero : Zero α := Scalar.zero

instance (priority := 100) scalarOne : One α := Scalar.one

instance (priority := 100) scalarAdd : Add α := Scalar.add

instance (priority := 100) scalarSub : Sub α := Scalar.sub

instance (priority := 100) scalarMul : Mul α := Scalar.mul

instance (priority := 100) scalarDiv : Div α := Scalar.div

instance (priority := 100) scalarBEq : BEq α := Scalar.beq

instance (priority := 100) scalarLT : LT α := Scalar.lt

instance (priority := 100) scalarLE : LE α := Scalar.le

instance (priority := 100) scalarDecidableLT : DecidableLT α := Scalar.decidableLT

instance (priority := 100) scalarDecidableLE : DecidableLE α := Scalar.decidableLE

end

/-- The circle constant and the cosine, which place nodes on a half circle. -/
class Trigonometric (α : Type u) where
  /-- The ratio of a circle's circumference to its diameter. -/
  pi : α
  /-- The cosine of an angle in radians. -/
  cos : α → α

/-- A number type whose values take up a fixed number of bytes. -/
class FixedWidth (α : Type u) where
  /-- How many bytes one value takes up. -/
  bytes : Nat

/-- Numbers of 64 bits. A size fits into a word, so its conversion rounds once. -/
instance : Scalar Float where
  ofSize n := n.toUInt64.toFloat

/-- The constant is the number of 64 bits nearest to the ratio. -/
instance : Trigonometric Float where
  pi := Float.ofBits 0x400921fb54442d18
  cos := Float.cos

instance : FixedWidth Float where
  bytes := 8

/-- Numbers of 32 bits. A size is rounded to them directly, not by way of 64 bits. -/
instance : Scalar Float32 where
  ofSize n := n.toUInt64.toFloat32

/-- The constant is the number of 32 bits nearest to the ratio. -/
instance : Trigonometric Float32 where
  pi := Float32.ofBits 0x40490fdb
  cos := Float32.cos

instance : FixedWidth Float32 where
  bytes := 4

end Interpolant
