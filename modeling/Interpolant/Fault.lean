/-! # Faults

What a caller can get wrong. Every refusal is a `Fault`, which says why the input was refused and
carries the words for it; no fault stands for a failure of the library itself.
-/

namespace Interpolant

/-- Why an input is refused. -/
inductive Fault where
  /-- The shape of a table or a buffer is inconsistent, or a parameter is out of range. -/
  | invalidInput (reason : String)
  /-- The samples at positions `i` and `j` have the same location. -/
  | degenerateSamples (i j : Nat)
deriving DecidableEq, Repr

namespace Fault

/-- A table has no values per sample. -/
def zeroStride : Fault := .invalidInput "Stride must be at least 1"

/-- A table has less than two samples. -/
def tooFewSamples : Fault := .invalidInput "Need at least 2 samples"

/-- A chord is asked for through a number of samples other than two. -/
def notTwoSamples : Fault := .invalidInput "Linear method needs exactly 2 samples"

/-- The lengths of two lists do not belong together. -/
def dimensionMismatch : Fault := .invalidInput "Dimension mismatch"

/-- The output buffer does not have room for exactly one value block. -/
def outputSize : Fault := .invalidInput "Output size must match stride"

/-- A window of less than two samples is asked for. -/
def windowTooSmall : Fault := .invalidInput "Window must hold at least 2 samples"

/-- The sample locations go down somewhere. -/
def notIncreasing : Fault := .invalidInput "Sample locations must be monotonically increasing"

/-- There is nothing to interleave. -/
def noColumn : Fault := .invalidInput "Need at least one column"

/-- The text that reports a fault. -/
def message : Fault → String
  | .invalidInput reason => s!"invalid input: {reason}"
  | .degenerateSamples i j => s!"degenerate samples: x[{i}] == x[{j}]"

/-- The caller's shapes or parameters are at fault, not the sample locations. -/
def IsInvalidInput : Fault → Prop
  | .invalidInput _ => True
  | .degenerateSamples _ _ => False

instance : DecidablePred IsInvalidInput
  | .invalidInput _ => .isTrue trivial
  | .degenerateSamples _ _ => .isFalse id

end Fault

end Interpolant
