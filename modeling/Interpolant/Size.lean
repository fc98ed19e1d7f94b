/-! # Sizes

Lengths, strides and degrees are sizes: natural numbers that have to fit into a word of 64 bits.
A product of two sizes is checked against that bound, and a successor stops at it.
-/

namespace Interpolant.Size

/-- The largest size that a word of 64 bits holds. -/
def largest : Nat := UInt64.size - 1

/-- The product of two sizes, if it is a size again. -/
def mul? (a b : Nat) : Option Nat :=
  if a * b ≤ largest then some (a * b) else none

/-- The next size, or the largest one if there is no next. -/
def succ (n : Nat) : Nat :=
  min (n + 1) largest

theorem mul?_eq_some_iff {a b c : Nat} : mul? a b = some c ↔ a * b = c ∧ c ≤ largest := by
  unfold mul?
  split
  · next bounded => simpa using fun same => same ▸ bounded
  · next unbounded => simpa using fun same => by omega

theorem succ_of_lt {n : Nat} (bound : n < largest) : succ n = n + 1 :=
  Nat.min_eq_left bound

end Interpolant.Size
