import Interpolant.Scalar

/-! # The Lagrange basis

Over locations `x₀, …, xₙ` the basis coefficient of sample `i` at a query `x` is the product, over
all other samples `j`, of `(x - xⱼ) / (xᵢ - xⱼ)`. It is one at `xᵢ` and zero at every other
location. There is no such coefficient if some difference `xᵢ - xⱼ` is zero.
-/

namespace Interpolant

universe u

/-- Two samples whose locations have a difference of zero, in the order in which they were met. -/
structure Coincidence where
  /-- The sample whose coefficient was wanted. -/
  own : Nat
  /-- The other sample. -/
  other : Nat
deriving DecidableEq, Repr

namespace Basis

variable {α : Type u} [Scalar α]

/-- The locations of all samples but the one at position `i`, each with its position. -/
def others (locations : List α) (i : Nat) : List (α × Nat) :=
  locations.zipIdx.filter fun sample => sample.2 != i

/-- One more factor of a coefficient, for the sample at position `sample.2`. The product so far is
multiplied first and divided after. -/
def extend (x own : α) (product : α) (sample : α × Nat) : Except Nat α :=
  let gap := own - sample.1
  if gap == 0 then .error sample.2 else .ok (product * (x - sample.1) / gap)

/-- The coefficient at `x` of a sample located at `own`, or the position of the first of the other
samples that is no distance away from it. -/
def coefficient (x own : α) (others : List (α × Nat)) : Except Nat α :=
  others.foldlM (extend x own) 1

/-- The sum so far with one more block of values, weighted by its coefficient. -/
def addBlock (weight : α) (sum block : List α) : List α :=
  sum.zipWith (fun s y => s + weight * y) block

theorem addBlock_length {weight : α} {sum block : List α} (same : block.length = sum.length) :
    (addBlock weight sum block).length = sum.length := by
  simp only [addBlock, List.length_zipWith, same, Nat.min_self]

end Basis

end Interpolant
