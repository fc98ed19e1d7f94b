import Interpolant.Scalar

/-! # Nodes

Places to take samples at: evenly spaced ones, and the Chebyshev nodes, which crowd towards the
ends of an interval and so keep polynomials of high degree from swinging there.
-/

namespace Interpolant.Nodes

universe u

variable {α : Type u} [Scalar α]

/-- `n` evenly spaced nodes from `start` on, with a step that takes the last one to `stop`. A
single node is at `start`. -/
def evenlySpaced (start stop : α) (n : Nat) : List α :=
  let step := (stop - start) / Scalar.ofSize (max n 2 - 1)
  (List.range n).map fun i => start + Scalar.ofSize i * step

/-- The angle of the `k`-th of `n` points that halve `n` equal arcs of a half circle. -/
def angle [Trigonometric α] (k n : Nat) : α :=
  Trigonometric.pi * (Scalar.ofSize 2 * Scalar.ofSize k + 1) / (Scalar.ofSize 2 * Scalar.ofSize n)

/-- The `n` Chebyshev nodes of the first kind between `start` and `stop`, in increasing order: the
points of `angle`, projected onto the interval. -/
def chebyshev [Trigonometric α] (start stop : α) (n : Nat) : List α :=
  let middle := (start + stop) / Scalar.ofSize 2
  let radius := (stop - start) / Scalar.ofSize 2
  (List.range n).reverse.map fun k => middle + radius * Trigonometric.cos (angle k n)

@[simp] theorem evenlySpaced_length (start stop : α) (n : Nat) :
    (evenlySpaced start stop n).length = n := by
  simp only [evenlySpaced, List.length_map, List.length_range]

@[simp] theorem chebyshev_length [Trigonometric α] (start stop : α) (n : Nat) :
    (chebyshev start stop n).length = n := by
  simp only [chebyshev, List.length_map, List.length_reverse, List.length_range]

end Interpolant.Nodes
