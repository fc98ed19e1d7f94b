import Interpolant.Chord
import Interpolant.Lagrange
import Interpolant.Window

/-! # Methods

The ways to interpolate a table, and their use on the samples nearest to a query. A method says how
many samples it needs for a degree; `Method.interpolateWindowed` selects a window of that many and
hands its part of the table to the method.
-/

namespace Interpolant

universe u

/-- A way to interpolate a table of samples. -/
inductive Method where
  /-- The polynomial through all samples. -/
  | lagrange
  /-- The chord through two samples. -/
  | linear
deriving DecidableEq, Repr

namespace Method

variable {α : Type u} [Scalar α]

/-- The name under which a method is shown. -/
def name : Method → String
  | .lagrange => "Lagrange"
  | .linear => "Linear"

/-- How many samples the method needs for the given degree. A chord has no choice of degree. -/
def requiredSamples : Method → Nat → Nat
  | .lagrange, degree => Lagrange.requiredSamples degree
  | .linear, _ => Chord.requiredSamples

/-- Writes the value at `x` that the method finds from a whole table. -/
def interpolate : Method → α → Table α → List α → Written α
  | .lagrange => Lagrange.interpolate
  | .linear => Chord.interpolate

/-- Writes the value at `x` that the method finds from as many samples around `x` as it needs for
the degree. The table's shape is checked first, then the order of its locations. -/
def interpolateWindowed (method : Method) (x : α) (table : Table α) (degree : Nat)
    (out : List α) : Written α :=
  if table.Aligned then
    .after (Window.select x table.locations (method.requiredSamples degree)) out fun window =>
      method.interpolate x (table.slice window.first window.count) out
  else .refused .dimensionMismatch out

end Method

namespace Table

variable {α : Type u} [Scalar α]

/-- Writes the value at `x` of the polynomial of the given degree through the samples around `x`.
The table's shape was checked before, and every part of such a table has a proper shape too. -/
def evaluateWindowed (table : Table α) (x : α) (degree : Nat) (out : List α) : Written α :=
  .after (Window.select x table.locations (Lagrange.requiredSamples degree)) out fun window =>
    (table.slice window.first window.count).evaluate x out

end Table

end Interpolant
