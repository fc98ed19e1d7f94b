/-! # Events

What an operation reports on the side while it runs. An `Event` names the occurrence and the
numbers that belong to it; its level and its wording are functions of it.
-/

namespace Interpolant

/-- How much detail a reader of the log has to ask for before an event is shown. -/
inductive Level where
  | debug
  | trace
deriving DecidableEq, Repr

/-- An occurrence that an operation puts into the log. -/
inductive Event where
  /-- The locations of samples `i` and `j` have a difference of zero. -/
  | vanishingGap (i j : Nat)
  /-- The two ends of a chord have a difference of zero. -/
  | vanishingChord
  /-- The locations of samples `i` and `i + 1` compare equal. -/
  | repeatedLocation (i : Nat)
  /-- A window of `count` samples was asked for, and the table holds only `size`. -/
  | truncated (count size : Nat)
  /-- The samples from `first` to before `stop` were selected from a table of `size`. -/
  | selected (first stop size : Nat)
deriving DecidableEq, Repr

namespace Event

/-- Only the choice of a window is traced; every other event is of interest when debugging. -/
def level : Event → Level
  | .selected .. => .trace
  | _ => .debug

/-- The text of an event in the log. -/
def text : Event → String
  | .vanishingGap i j => s!"degenerate samples at indices {i} and {j}"
  | .vanishingChord => "degenerate linear samples"
  | .repeatedLocation i => s!"duplicate sample location at index {i}"
  | .truncated count size => s!"window of {count} truncated to table of {size} samples"
  | .selected first stop size => s!"window {first}..{stop} of {size}"

end Event

end Interpolant
