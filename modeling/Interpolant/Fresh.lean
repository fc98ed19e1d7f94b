import Interpolant.Method

/-! # Fresh buffers

Interpolation into a buffer of its own, for callers who have none at hand. The buffer for one query
is made before anything is checked, with as many entries as a block is said to have; no buffer can
be made that takes up more bytes than the address space allows, whatever is wrong with the table.
For many queries, the number of entries has to be a size in the first place.
-/

namespace Interpolant

universe u

/-- The most bytes that one buffer takes up. -/
def maxBufferBytes : Nat := UInt64.size / 2 - 1

/-- Whether a buffer of `size` numbers can be made. -/
def Allocatable (α : Type u) [FixedWidth α] (size : Nat) : Prop :=
  size * FixedWidth.bytes α ≤ maxBufferBytes

instance (α : Type u) [FixedWidth α] (size : Nat) : Decidable (Allocatable α size) :=
  inferInstanceAs (Decidable (_ ≤ _))

/-- Why there is no result in a fresh buffer. -/
inductive FreshFault where
  /-- The buffer could not be made. -/
  | capacityOverflow
  /-- The input is refused. -/
  | refused (fault : Fault)
deriving DecidableEq, Repr

namespace FreshFault

/-- The text that reports a missing result. -/
def message : FreshFault → String
  | .capacityOverflow => "capacity overflow"
  | .refused fault => fault.message

end FreshFault

variable {α : Type u} [Scalar α] [FixedWidth α]

/-- What a call writes into a new, zeroed buffer of the given size. -/
def intoFresh (size : Nat) (call : List α → Written α) : Traced FreshFault (List α) :=
  if Allocatable α size then (call (List.replicate size 0)).contents.mapFault .refused
  else .refused .capacityOverflow

/-- The value at `x` of the polynomial through all samples. -/
def Lagrange.interpolateFresh (x : α) (table : Table α) : Traced FreshFault (List α) :=
  intoFresh table.stride (Lagrange.interpolate x table)

/-- The value at `x` that the method finds from a whole table. -/
def Method.interpolateFresh (method : Method) (x : α) (table : Table α) :
    Traced FreshFault (List α) :=
  intoFresh table.stride (method.interpolate x table)

/-- The values at the queries, one block after another, from a table of a shape that was checked
before. -/
def Table.tabulate (table : Table α) (queries : List α) : Traced FreshFault (List α) :=
  match Size.mul? queries.length table.stride with
  | some size => intoFresh size (table.evaluateAll queries)
  | none => .refused (.refused .dimensionMismatch)

end Interpolant
