import Interpolant.Fault
import Interpolant.Event

/-! # Traced results

What an operation gives back: a value or the reason for a refusal, and in either case the events
that it reported, in order. Running one operation after another joins their logs; a refusal ends
the run and keeps what was logged before it.
-/

namespace Interpolant

universe u v w

/-- A value or a refusal, with the log of how it came about. -/
structure Traced (ε : Type v) (β : Type u) where
  /-- What the operation answers. -/
  result : Except ε β
  /-- The events it reported, in order. -/
  log : List Event

namespace Traced

variable {ε : Type v} {β : Type u} {γ : Type w}

/-- A value with nothing logged. -/
def done (value : β) : Traced ε β := ⟨.ok value, []⟩

/-- A refusal with nothing logged. -/
def refused (fault : ε) : Traced ε β := ⟨.error fault, []⟩

/-- A function of the value; the log stays. -/
def map (f : β → γ) (first : Traced ε β) : Traced ε γ := ⟨first.result.map f, first.log⟩

/-- A function of the reason for a refusal; the log stays. -/
def mapFault {δ : Type w} (f : ε → δ) (first : Traced ε β) : Traced δ β :=
  ⟨first.result.mapError f, first.log⟩

/-- One operation after another: the second sees the first one's value. -/
def bind (first : Traced ε β) (next : β → Traced ε γ) : Traced ε γ :=
  match first.result with
  | .ok value => ⟨(next value).result, first.log ++ (next value).log⟩
  | .error fault => ⟨.error fault, first.log⟩

@[simp] theorem done_result (value : β) : (done value : Traced ε β).result = .ok value := rfl

@[simp] theorem map_result (f : β → γ) (first : Traced ε β) :
    (first.map f).result = first.result.map f := rfl

@[simp] theorem bind_result (first : Traced ε β) (next : β → Traced ε γ) :
    (first.bind next).result = first.result.bind fun value => (next value).result := by
  rw [bind]
  cases first.result <;> rfl

end Traced

end Interpolant
