import Interpolant.Scalar
import Interpolant.Size
import Interpolant.Traced

/-! # Windows

A window is a run of consecutive samples. `Window.select` picks the one that straddles a query
point: half of its samples lie below the query if the table has that many on either side, and
otherwise it is pushed against the end of the table. Locations that repeat or go down are refused.
-/

namespace Interpolant

universe u

/-- `count` consecutive samples, from position `first` on. -/
structure Window where
  /-- The position of the first sample. -/
  first : Nat
  /-- How many samples there are. -/
  count : Nat
deriving DecidableEq, Repr

namespace Window

/-- The position after the last sample. -/
def stop (window : Window) : Nat := window.first + window.count

/-- The window of `count` out of `size` samples that has half of them, rounded down, before
position `pivot`, as far as the ends of the table allow. -/
def around (pivot count size : Nat) : Window :=
  ⟨min (pivot - count / 2) (size - count), count⟩

theorem stop_around_le {pivot count size : Nat} (fits : count ≤ size) :
    (around pivot count size).stop ≤ size := by
  simp only [around, stop]
  omega

/-- An adjacent pair of locations in which the right one is at or below the left one. -/
structure Descent (α : Type u) where
  /-- The position of the left one. -/
  position : Nat
  /-- The location at that position. -/
  left : α
  /-- The location after it. -/
  right : α

variable {α : Type u} [Scalar α]

/-- The first adjacent pair in which the right location is at or below the left one, where
`position` is the position of the head of the list. -/
def firstDescent (position : Nat) : List α → Option (Descent α)
  | left :: right :: rest =>
    if right ≤ left then some ⟨position, left, right⟩
    else firstDescent (position + 1) (right :: rest)
  | _ => none

/-- Narrows down by halves where the locations below `x` end: at the position `base`, or behind it
and at most `size` positions further on. A location below `x` is taken to have none above `x` before
it, and one that is not to have none below `x` behind it. -/
def bisect (x : α) (locations : List α) (base size : Nat) : Nat :=
  if 1 < size then
    if ∃ a ∈ locations[base + size / 2]?, a < x then
      bisect x locations (base + size / 2) (size - size / 2)
    else bisect x locations base (size - size / 2)
  else if ∃ a ∈ locations[base]?, a < x then base + 1 else base
termination_by size

/-- How many locations of a table are below `x`, as a search by halves finds it. In an increasing
table these are all that are; in another one the search ends somewhere in the table. -/
def below (x : α) (locations : List α) : Nat :=
  bisect x locations 0 locations.length

/-- The window of `count` samples around `x`. A table that is shorter is taken whole. Faults are
looked for in this order: too small a window, too few samples, a repeated or falling location. -/
def select (x : α) (locations : List α) (count : Nat) : Traced Fault Window :=
  let size := locations.length
  if count < 2 then .refused .windowTooSmall
  else if size < 2 then .refused .tooFewSamples
  else match firstDescent 0 locations with
    | some ⟨i, left, right⟩ =>
      if left == right then ⟨.error (.degenerateSamples i (i + 1)), [.repeatedLocation i]⟩
      else .refused .notIncreasing
    | none =>
      let window := around (below x locations) (min count size) size
      let truncation := if size < count then [.truncated count size] else []
      ⟨.ok window, truncation ++ [.selected window.first window.stop size]⟩

theorem bisect_le {x : α} {locations : List α} {base size : Nat}
    (inside : base + size ≤ locations.length) :
    bisect x locations base size ≤ locations.length := by
  fun_induction bisect x locations base size with
  | case1 base size several low ih => exact ih (by omega)
  | case2 base size several high ih => exact ih (by omega)
  | case3 base size few low =>
    obtain ⟨a, here, -⟩ := low
    exact (List.getElem?_eq_some_iff.mp here).1
  | case4 base size few high => omega

/-- Whatever the order of the locations is, the search ends in the table. -/
theorem below_le_length (x : α) (locations : List α) : below x locations ≤ locations.length :=
  bisect_le (Nat.le_of_eq (Nat.zero_add _))

theorem firstDescent_eq_none_iff {locations : List α} {position : Nat} :
    firstDescent position locations = none ↔
      ∀ i (bound : i + 1 < locations.length), ¬ locations[i + 1] ≤ locations[i] := by
  induction locations generalizing position with
  | nil => simp [firstDescent]
  | cons left rest ih =>
    cases rest with
    | nil => simp [firstDescent]
    | cons right rest =>
      unfold firstDescent
      split
      · next down =>
        refine ⟨fun none => by contradiction, fun up => ?_⟩
        exact absurd down (up 0 (Nat.succ_lt_succ (Nat.zero_lt_succ _)))
      · next up =>
        rw [ih]
        constructor
        · intro later i bound
          cases i with
          | zero => exact up
          | succ i => exact later i (Nat.lt_of_succ_lt_succ bound)
        · intro all i bound
          exact all (i + 1) (Nat.succ_lt_succ bound)

end Window

end Interpolant
