import Interpolant.Traced

/-! # Written buffers

An operation that writes into a buffer of the caller leaves the buffer in some state whether or not
it succeeds. A `Written` is what can be seen after such a call: the outcome, the log, and the
contents of the buffer.
-/

namespace Interpolant

universe u v

/-- What a call that was handed an output buffer leaves behind. -/
structure Written (α : Type u) where
  /-- Whether the call succeeded. -/
  result : Except Fault Unit
  /-- The contents of the buffer after the call. -/
  out : List α
  /-- The events reported during the call, in order. -/
  log : List Event

namespace Written

variable {α : Type u} {β : Type v}

/-- A success that leaves `out` in the buffer. -/
def done (out : List α) : Written α := ⟨.ok (), out, []⟩

/-- A refusal before anything was written or logged. -/
def refused (fault : Fault) (out : List α) : Written α := ⟨.error fault, out, []⟩

/-- Two calls on the two parts of one buffer. The second runs only if the first succeeds; otherwise
its part of the buffer is still `rest`. -/
def andThen (first : Written α) (rest : List α) (second : List α → Written α) : Written α :=
  match first.result with
  | .ok () =>
    let last := second rest
    ⟨last.result, first.out ++ last.out, first.log ++ last.log⟩
  | .error _ => { first with out := first.out ++ rest }

/-- A call on `out` that needs a value computed first. Without the value, nothing is written. -/
def after (first : Traced Fault β) (out : List α) (next : β → Written α) : Written α :=
  match first.result with
  | .ok value => { next value with log := first.log ++ (next value).log }
  | .error fault => ⟨.error fault, out, first.log⟩

/-- The contents of the buffer as a result: there is one only if the call succeeded. -/
def contents (call : Written α) : Traced Fault (List α) :=
  ⟨call.result.map fun _ => call.out, call.log⟩

theorem after_of_ok {first : Traced Fault β} {value : β} (out : List α) (next : β → Written α)
    (ran : first.result = .ok value) :
    after first out next = { next value with log := first.log ++ (next value).log } := by
  simp only [after, ran]

theorem after_of_error {first : Traced Fault β} {fault : Fault} (out : List α)
    (next : β → Written α) (failed : first.result = .error fault) :
    after first out next = ⟨.error fault, out, first.log⟩ := by
  simp only [after, failed]

end Written

end Interpolant
