import Interpolant.Proofs.BatchEvaluation
import Interpolant.Proofs.Outcome
import Interpolant.Proofs.WindowedOutcome

/-! # What the log tells

Events are reported from the middle of searches and sums, but a caller who knows how an operation
ended knows its log. On a whole table there is one event for a coincidence of locations, and none
otherwise; the selection of a window reports the window, or the repeated location it was refused
for; and an interpolation on a window logs the selection first and the method after it.
-/

namespace Interpolant

universe u v

open OrderedScalar

/-- How a method reports that the locations of two samples coincide. -/
def Method.event : Method → Nat → Nat → Event
  | .lagrange, i, j => .vanishingGap i j
  | .linear, _, _ => .vanishingChord

/-- The log of a method on a whole table, told by the result. -/
def Method.logOf {β : Type v} (method : Method) : Except FreshFault β → List Event
  | .error (.refused (.degenerateSamples i j)) => [method.event i j]
  | _ => []

/-- The log of a selection of `count` out of `size` samples, told by the result. -/
def Window.logOf (count size : Nat) : Except Fault Window → List Event
  | .ok window =>
    (if size < count then [.truncated count size] else []) ++
      [.selected window.first window.stop size]
  | .error (.degenerateSamples i _) => [.repeatedLocation i]
  | .error (.invalidInput _) => []

namespace Written

variable {α : Type u} {β : Type v}

/-- What is known after a call if the buffer is looked at only after a success. -/
def answer (call : Written α) : Traced FreshFault (List α) := call.contents.mapFault .refused

/-- The log of a call is the one that its result tells of. -/
def ToldBy (method : Method) (call : Written α) : Prop :=
  call.answer.log = method.logOf call.answer.result

theorem ToldBy.done (method : Method) (out : List α) : (Written.done out).ToldBy method := rfl

theorem ToldBy.refused (method : Method) (fault : Fault) (invalid : fault.IsInvalidInput)
    (out : List α) : (Written.refused fault out).ToldBy method := by
  cases fault with
  | invalidInput reason => rfl
  | degenerateSamples i j => contradiction

/-- A call that does not fail for the locations logs nothing. -/
theorem ToldBy.quiet {method : Method} {call : Written α} (told : call.ToldBy method)
    (shapes : ∀ fault, call.result = .error fault → fault.IsInvalidInput) :
    call.answer.log = [] := by
  obtain ⟨result, out, log⟩ := call
  cases result with
  | ok => exact told
  | error fault =>
    cases fault with
    | invalidInput reason => exact told
    | degenerateSamples i j => exact absurd (shapes _ rfl) id

theorem answer_after_of_error {first : Traced Fault β} {fault : Fault} (out : List α)
    (next : β → Written α) (failed : first.result = .error fault) :
    (after first out next).answer = ⟨.error (.refused fault), first.log⟩ := by
  rw [after_of_error out next failed]
  rfl

theorem answer_after_of_ok {first : Traced Fault β} {value : β} (out : List α)
    (next : β → Written α) (ran : first.result = .ok value) :
    (after first out next).answer =
      ⟨(next value).answer.result, first.log ++ (next value).answer.log⟩ := by
  rw [after_of_ok out next ran]
  rfl

end Written

namespace Window

variable {α : Type u} [Scalar α]

theorem select_log (x : α) (locations : List α) (count : Nat) :
    (select x locations count).log =
      logOf count locations.length (select x locations count).result := by
  simp only [select]
  split
  · rfl
  split
  · rfl
  split
  · split <;> rfl
  · rfl

/-- The samples of a window: the locations from its first position up to its stop, and the values
from where the block of the first position begins up to where a block of the stop would begin. -/
def excerpt (window : Window) (table : Table α) : Table α :=
  ⟨table.locations.extract window.first window.stop,
    table.values.extract (window.first * table.stride) (window.stop * table.stride), table.stride⟩

omit [Scalar α] in
/-- What is handed to a method is the samples of the window. -/
theorem slice_eq_excerpt (window : Window) (table : Table α) :
    table.slice window.first window.count = window.excerpt table :=
  table.slice_eq_extract window.first window.count

/-- The samples that a selection is refused for are neighbours. -/
theorem neighbours_of_select {x : α} {locations : List α} {count i j : Nat}
    (failed : (select x locations count).result = .error (.degenerateSamples i j)) :
    j = i + 1 := by
  -- Of all refusals, only the one for a first descent can be for equal locations.
  simp only [select] at failed
  split at failed
  · cases failed
  split at failed
  · cases failed
  split at failed
  · split at failed
    · cases failed
      rfl
    · cases failed
  · cases failed

end Window

variable {α : Type u} [Scalar α]

/-- The chord has one way to fail for its locations, and reports it. -/
theorem Chord.interpolate_toldBy (x : α) (table : Table α) (out : List α) :
    (Chord.interpolate x table out).ToldBy .linear := by
  unfold Chord.interpolate
  split
  · split
    · exact .refused _ .dimensionMismatch trivial out
    · dsimp only
      split
      · rfl
      · exact .done _ _
  · exact .refused _ .notTwoSamples trivial out

section Ordered

variable [OrderedScalar α]

namespace Table

/-- The event of a coincidence names the samples as the fault does, which puts them in order:
they were met in this order. -/
theorem evaluate_toldBy (table : Table α) (x : α) (out : List α) :
    (table.evaluate x out).ToldBy .lagrange := by
  by_cases room : out.length = table.stride
  · cases found : Basis.coincidence? table.locations with
    | none =>
      rw [evaluate_of_distinct room found]
      exact .done _ _
    | some met =>
      have fault := Coincidence.fault_of_lt (Basis.own_lt_other_of_coincidence? found)
      rw [evaluate_of_coincidence room found, erased, fault]
      rfl
  · rw [evaluate_of_wrong_room room]
    exact .refused _ .outputSize trivial out

/-- A run that writes one block after another stops at its first event. -/
theorem fill_toldBy {table : Table α} {queries out : List α}
    (room : out.length = queries.length * table.stride) :
    (table.fill queries out).ToldBy .lagrange := by
  cases found : Basis.coincidence? table.locations with
  | none =>
    rw [fill_of_distinct found room]
    exact .done _ _
  | some met =>
    cases queries with
    | nil => exact .done _ _
    | cons x rest =>
      have fault := Coincidence.fault_of_lt (Basis.own_lt_other_of_coincidence? found)
      rw [fill_of_coincidence found x rest (room_cons room).1, fault]
      rfl

theorem evaluateAll_toldBy (table : Table α) (queries out : List α) :
    (table.evaluateAll queries out).ToldBy .lagrange := by
  rcases table.evaluateAll_cases queries out with refused | ⟨room, filled⟩
  · rw [refused]
    exact .refused _ .dimensionMismatch trivial out
  · rw [filled]
    exact fill_toldBy room

end Table

theorem Method.interpolate_toldBy (method : Method) (x : α) (table : Table α) (out : List α) :
    (method.interpolate x table out).ToldBy method := by
  cases method with
  | lagrange =>
    rw [interpolate]
    rcases Lagrange.refused_or_checked x table out with
      ⟨fault, invalid, refused⟩ | ⟨view, rfl, evaluated⟩
    · rw [refused]
      exact .refused _ fault invalid out
    · rw [evaluated]
      exact view.evaluate_toldBy x out
  | linear => exact Chord.interpolate_toldBy x table out

end Ordered

variable [FixedWidth α]

theorem intoFresh_log {method : Method} {call : List α → Written α}
    (told : ∀ out, (call out).ToldBy method) (size : Nat) :
    (intoFresh size call).log = method.logOf (intoFresh size call).result := by
  rw [intoFresh]
  split
  · exact told _
  · rfl

/-- An operation that looks at all samples of a table, with everything that it reads. -/
inductive WholeCall (α : Type u) where
  /-- A method into a buffer, whatever shape the table has. -/
  | interpolate (method : Method) (x : α) (table : Table α) (out : List α)
  /-- One query into a buffer. -/
  | evaluate (x : α) (table : Table α) (out : List α)
  /-- One query as a block of a size that the caller expects. -/
  | evaluateFixed (x : α) (table : Table α) (size : Nat)
  /-- Many queries into a buffer. -/
  | evaluateAll (queries : List α) (table : Table α) (out : List α)
  /-- Many queries into a fresh buffer. -/
  | tabulate (queries : List α) (table : Table α)
  /-- The polynomial into a fresh buffer, whatever shape the table has. -/
  | fresh (x : α) (table : Table α)
  /-- A method into a fresh buffer, whatever shape the table has. -/
  | methodFresh (method : Method) (x : α) (table : Table α)

namespace WholeCall

def run : WholeCall α → Traced FreshFault (List α)
  | .interpolate method x table out => (method.interpolate x table out).answer
  | .evaluate x table out => (table.evaluate x out).answer
  | .evaluateFixed x table size => (table.evaluateFixed x size).mapFault .refused
  | .evaluateAll queries table out => (table.evaluateAll queries out).answer
  | .tabulate queries table => table.tabulate queries
  | .fresh x table => Lagrange.interpolateFresh x table
  | .methodFresh method x table => method.interpolateFresh x table

omit [Scalar α] [FixedWidth α] in
def method : WholeCall α → Method
  | .interpolate method .. => method
  | .methodFresh method .. => method
  | _ => .lagrange

theorem run_log [OrderedScalar α] (call : WholeCall α) :
    call.run.log = call.method.logOf call.run.result := by
  cases call with
  | interpolate method x table out => exact method.interpolate_toldBy x table out
  | evaluate x table out => exact table.evaluate_toldBy x out
  | evaluateFixed x table size => exact table.evaluate_toldBy x (List.replicate size 0)
  | evaluateAll queries table out => exact table.evaluateAll_toldBy queries out
  | tabulate queries table =>
    simp only [run, Table.tabulate]
    split
    · exact intoFresh_log (table.evaluateAll_toldBy queries) _
    · rfl
  | fresh x table => exact intoFresh_log (Method.lagrange.interpolate_toldBy x table) _
  | methodFresh method x table => exact intoFresh_log (method.interpolate_toldBy x table) _

end WholeCall

/-- An operation that looks at the samples around one query, with everything that it reads. -/
inductive WindowedCall (α : Type u) where
  /-- A method, whatever shape the table has. -/
  | interpolate (method : Method) (x : α) (degree : Nat) (table : Table α) (out : List α)
  /-- The polynomial, on a table of a shape that was checked before. -/
  | evaluate (x : α) (degree : Nat) (table : Table α) (out : List α)

namespace WindowedCall

def run : WindowedCall α → Traced FreshFault (List α)
  | .interpolate method x degree table out => (method.interpolateWindowed x table degree out).answer
  | .evaluate x degree table out => (table.evaluateWindowed x degree out).answer

omit [Scalar α] [FixedWidth α] in
def table : WindowedCall α → Table α
  | .interpolate _ _ _ table _ => table
  | .evaluate _ _ table _ => table

/-- The shape is one that the call does not refuse at once. -/
def Admitted : WindowedCall α → Prop
  | .interpolate _ _ _ table _ => table.Aligned
  | .evaluate .. => True

/-- The selection of the window. -/
def selection : WindowedCall α → Traced Fault Window
  | .interpolate method x degree table _ =>
    Window.select x table.locations (method.requiredSamples degree)
  | .evaluate x degree table _ =>
    Window.select x table.locations (Lagrange.requiredSamples degree)

/-- The call on the samples of a window alone. -/
def within (window : Window) : WindowedCall α → WholeCall α
  | .interpolate method x _ table out => .interpolate method x (window.excerpt table) out
  | .evaluate x _ table out => .evaluate x (window.excerpt table) out

omit [FixedWidth α] in
theorem run_of_not_admitted {call : WindowedCall α} (wrong : ¬ call.Admitted) :
    call.run = .refused (.refused .dimensionMismatch) := by
  cases call with
  | interpolate method x degree table out =>
    have misaligned : ¬ table.Aligned := wrong
    rw [run, Method.interpolateWindowed, if_neg misaligned]
    rfl
  | evaluate x degree table out => exact absurd trivial wrong

omit [FixedWidth α] in
theorem run_of_error {call : WindowedCall α} {fault : Fault} (admitted : call.Admitted)
    (failed : call.selection.result = .error fault) :
    call.run = ⟨.error (.refused fault), call.selection.log⟩ := by
  cases call with
  | interpolate method x degree table out =>
    have aligned : table.Aligned := admitted
    rw [run, Method.interpolateWindowed, if_pos aligned]
    exact Written.answer_after_of_error out _ failed
  | evaluate x degree table out => exact Written.answer_after_of_error out _ failed

theorem run_of_ok {call : WindowedCall α} {window : Window} (admitted : call.Admitted)
    (selected : call.selection.result = .ok window) :
    call.run =
      ⟨(call.within window).run.result, call.selection.log ++ (call.within window).run.log⟩ := by
  cases call with
  | interpolate method x degree table out =>
    have aligned : table.Aligned := admitted
    rw [run, Method.interpolateWindowed, if_pos aligned, within, ← window.slice_eq_excerpt]
    exact Written.answer_after_of_ok out _ selected
  | evaluate x degree table out =>
    rw [within, ← window.slice_eq_excerpt]
    exact Written.answer_after_of_ok out _ selected

omit [FixedWidth α] in
theorem stop_le_size {call : WindowedCall α} {window : Window}
    (selected : call.selection.result = .ok window) : window.stop ≤ call.table.size := by
  cases call with
  | interpolate method x degree table out => exact (Window.bounds_of_select selected).2.2
  | evaluate x degree table out => exact (Window.bounds_of_select selected).2.2

/-- A method finds nothing to report in a window of locations that are numbers. -/
theorem within_log [OrderedScalar α] {call : WindowedCall α} {window : Window}
    (admitted : call.Admitted) (selected : call.selection.result = .ok window)
    (numbers : ∀ a ∈ call.table.locations, IsNumber a) : (call.within window).run.log = [] := by
  cases call with
  | interpolate method x degree table out =>
    rw [within, ← window.slice_eq_excerpt]
    refine (method.interpolate_toldBy x _ out).quiet fun fault failed => ?_
    rw [Method.interpolate_slice_result admitted numbers selected] at failed
    split at failed
    · contradiction
    · obtain rfl := Except.error.inj failed
      cases method <;> trivial
  | evaluate x degree table out =>
    obtain ⟨-, -, ascending, -⟩ := Window.select_eq_ok_iff.mp selected
    have increasing := (ascending.pairwise_lt numbers).sublist
      (table.slice_locations_sublist window.first window.count)
    have none := Basis.coincidence?_eq_none_of_increasing increasing
    rw [within, ← window.slice_eq_excerpt]
    -- No shape was checked here, but an evaluation fails for nothing else than room and locations.
    refine (Table.evaluate_toldBy _ x out).quiet fun fault failed => ?_
    by_cases room : out.length = (table.slice window.first window.count).stride
    · rw [Table.evaluate_of_distinct room none] at failed
      contradiction
    · rw [Table.evaluate_of_wrong_room room] at failed
      obtain rfl := Except.error.inj failed
      trivial

end WindowedCall

/-- On a whole table, the log is one event with the positions that a coincidence is refused for, in
their order, and is empty after every other result. A selection logs the window that it selects, and
before it that the window had to be shorter, or else the first of the two neighbours that it is
refused for. An interpolation on a window that refuses a shape logs nothing; otherwise it logs its
selection, and after it what the method logs, whose result it has, on the samples between the two
positions of the window. That is nothing if all locations are numbers. Only the selected window is
traced. -/
theorem log_told_by_result [OrderedScalar α] :
    (∀ call : WholeCall α, call.run.log = call.method.logOf call.run.result) ∧
      (∀ (x : α) (locations : List α) (count : Nat),
        (Window.select x locations count).log =
          Window.logOf count locations.length (Window.select x locations count).result ∧
        ∀ i j, (Window.select x locations count).result = .error (.degenerateSamples i j) →
          j = i + 1) ∧
      (∀ call : WindowedCall α,
        (¬ call.Admitted → call.run = .refused (.refused .dimensionMismatch)) ∧
        (∀ fault, call.Admitted → call.selection.result = .error fault →
          call.run = ⟨.error (.refused fault), call.selection.log⟩) ∧
        ∀ window, call.Admitted → call.selection.result = .ok window →
          window.stop ≤ call.table.size ∧
          call.run = ⟨(call.within window).run.result,
            call.selection.log ++ (call.within window).run.log⟩ ∧
          ((∀ a ∈ call.table.locations, IsNumber a) → (call.within window).run.log = [])) ∧
      ∀ event : Event, event.level = .trace ↔
        ∃ first stop size, event = .selected first stop size := by
  refine ⟨WholeCall.run_log, ?_, ?_, ?_⟩
  · intro x locations count
    exact ⟨Window.select_log x locations count, fun i j => Window.neighbours_of_select⟩
  · intro call
    refine ⟨WindowedCall.run_of_not_admitted, fun fault => WindowedCall.run_of_error, ?_⟩
    intro window admitted selected
    exact ⟨WindowedCall.stop_le_size selected, WindowedCall.run_of_ok admitted selected,
      WindowedCall.within_log admitted selected⟩
  · intro event
    cases event with
    | selected first stop size => exact ⟨fun _ => ⟨first, stop, size, rfl⟩, fun _ => rfl⟩
    | vanishingGap => exact ⟨nofun, nofun⟩
    | vanishingChord => exact ⟨nofun, nofun⟩
    | repeatedLocation => exact ⟨nofun, nofun⟩
    | truncated => exact ⟨nofun, nofun⟩

/-- A window of six samples is cut down to a table of three, and nothing else is reported. The search
goes on behind a location that is not a number, and the window that it reports has the samples that
the value is found from. With such a location between them, a repeated location escapes the
selection, and the method reports it after the window. -/
theorem log_told_by_result_truncated :
    let short : WindowedCall Float := .interpolate .lagrange 2 5 ⟨[1, 2, 4], [3, 5, 7], 1⟩ [0]
    let late : WindowedCall Float :=
      .interpolate .linear (5 / 2) 1 ⟨[0 / 0, 1, 2, 3], [7, 2, 5, 1], 1⟩ [0]
    let hidden : WindowedCall Float := .evaluate 2 2 ⟨[1, 0 / 0, 1], [3, 5, 7], 1⟩ [0]
    short.run.log = [.truncated 6 3, .selected 0 3 3] ∧
      late.run = ⟨.ok [3], [.selected 2 4 4]⟩ ∧
      hidden.run.log = [.selected 0 3 3, .vanishingGap 0 2] := by
  intro short late hidden
  obtain ⟨whole, -, windowed, -⟩ := log_told_by_result (α := Float)
  refine ⟨?_, ?_, ?_⟩
  · have aligned : short.table.Aligned := by decide
    have selected : short.selection.result = .ok ⟨0, 3⟩ := by decide +kernel
    obtain ⟨-, run, quiet⟩ := (windowed short).2.2 ⟨0, 3⟩ aligned selected
    rw [run, quiet (by decide), List.append_nil]
    decide +kernel
  · have aligned : late.table.Aligned := by decide
    have selected : late.selection.result = .ok ⟨2, 2⟩ := by decide +kernel
    have log : late.selection.log = [.selected 2 4 4] := by decide +kernel
    have value : (late.within ⟨2, 2⟩).run.result = .ok [3] := by decide +kernel
    have quiet : (late.within ⟨2, 2⟩).run.log = [] := by decide +kernel
    obtain ⟨-, run, -⟩ := (windowed late).2.2 ⟨2, 2⟩ aligned selected
    rw [run, log, value, quiet, List.append_nil]
  · have selected : hidden.selection.result = .ok ⟨0, 3⟩ := by decide +kernel
    have log : hidden.selection.log = [.selected 0 3 3] := by decide +kernel
    obtain ⟨-, run, -⟩ := (windowed hidden).2.2 ⟨0, 3⟩ trivial selected
    rw [run, whole, log]
    rfl

end Interpolant
