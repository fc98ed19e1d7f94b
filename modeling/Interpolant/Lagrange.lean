import Interpolant.Basis
import Interpolant.Table
import Interpolant.Written

/-! # Interpolation through all samples

The polynomial of least degree through all samples of a table is the sum of their blocks, weighted
by the Lagrange basis. `Table.evaluate` writes its value at one query point into a buffer, and
`Table.evaluateAll` the values at many points, one block after another. Both take a table whose
shape was checked before; `Lagrange.interpolate` does that check itself.

If two locations coincide, the buffer is left zeroed and the fault names the two samples.
-/

namespace Interpolant

universe u

namespace Coincidence

/-- The two samples in ascending order. -/
def fault (met : Coincidence) : Fault :=
  .degenerateSamples (min met.own met.other) (max met.own met.other)

/-- The two samples in the order in which they were met. -/
def event (met : Coincidence) : Event :=
  .vanishingGap met.own met.other

end Coincidence

namespace Table

variable {α : Type u} [Scalar α]

/-- Every sample of a table: its location, its position and its block. -/
def samples (table : Table α) : List ((α × Nat) × List α) :=
  table.locations.zipIdx.zip table.blocks

/-- What an evaluation leaves behind that met a coincidence: the sums written so far are erased. -/
def erased (table : Table α) (met : Coincidence) : Written α :=
  ⟨.error met.fault, List.replicate table.stride 0, [met.event]⟩

/-- Adds the blocks of some samples to the sums in a buffer, one after another, each weighted by
its coefficient at `x`, as long as there are coefficients. -/
def accumulate (table : Table α) (x : α) : List ((α × Nat) × List α) → List α → Written α
  | [], sums => .done sums
  | ((own, i), block) :: rest, sums =>
    match Basis.coefficient x own (Basis.others table.locations i) with
    | .ok weight => table.accumulate x rest (Basis.addBlock weight sums block)
    | .error j => table.erased ⟨i, j⟩

/-- Writes the value at `x` of the polynomial through all samples into a buffer that has to be as
long as a block. The sums start from zero and take up the blocks in the order of the samples. -/
def evaluate (table : Table α) (x : α) (out : List α) : Written α :=
  if out.length ≠ table.stride then .refused .outputSize out
  else table.accumulate x table.samples (List.replicate table.stride 0)

/-- Writes the values at the queries into consecutive blocks of a buffer, as far as it succeeds. -/
def fill (table : Table α) : List α → List α → Written α
  | [], out => .done out
  | x :: queries, out =>
    (table.evaluate x (out.take table.stride)).andThen (out.drop table.stride)
      (table.fill queries)

/-- Writes the values at the queries into a buffer that has to hold one block for each. -/
def evaluateAll (table : Table α) (queries out : List α) : Written α :=
  if Size.mul? queries.length table.stride = some out.length then table.fill queries out
  else .refused .dimensionMismatch out

/-- The value at `x` for a caller who expects it to be a block of `size` values. -/
def evaluateFixed (table : Table α) (x : α) (size : Nat) : Traced Fault (List α) :=
  (table.evaluate x (List.replicate size 0)).contents

end Table

namespace Lagrange

variable {α : Type u} [Scalar α]

/-- How many samples determine a polynomial of the given degree; never less than two. -/
def requiredSamples (degree : Nat) : Nat :=
  max (Size.succ degree) 2

/-- Writes the value at `x` of the polynomial through all samples, whatever shape the table and
the buffer have. The table's shape is checked before the buffer's. -/
def interpolate (x : α) (table : Table α) (out : List α) : Written α :=
  match table.checked with
  | .ok table => table.evaluate x out
  | .error fault => .refused fault out

end Lagrange

end Interpolant
