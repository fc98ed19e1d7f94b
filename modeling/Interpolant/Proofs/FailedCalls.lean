import Interpolant.Proofs.Evaluation
import Interpolant.Method

/-! # What a failed call leaves in the buffer

A call that fails shows no computed value. A fault of the caller's shapes, a refused window and a
vanishing chord are found before anything is written; a coincidence of locations is found in the
middle of an evaluation, which then erases its block. Whether locations coincide does not depend on
the query, so that a run over many queries fails at the first of them or not at all.
-/

namespace Interpolant

universe u v

variable {α : Type u} [Scalar α]

/-- A failure that leaves the buffer as it was, or a coincidence that zeroes its first block. -/
def Written.FailsClean (stride : Nat) (before : List α) (call : Written α) : Prop :=
  ∀ fault, call.result = .error fault →
    if fault.IsInvalidInput then call.out = before
    else stride ≤ before.length ∧ call.out = List.replicate stride 0 ++ before.drop stride

namespace Written

private theorem FailsClean.of_ok {stride : Nat} {before : List α} {call : Written α}
    (success : call.result = .ok ()) : call.FailsClean stride before := by
  intro fault failed
  rw [success] at failed
  contradiction

private theorem FailsClean.refused (stride : Nat) (fault : Fault) (invalid : fault.IsInvalidInput)
    (before : List α) : (Written.refused fault before).FailsClean stride before := by
  intro reason failed
  obtain rfl := Except.error.inj failed
  rw [if_pos invalid]
  rfl

private theorem FailsClean.after {β : Type v} {stride : Nat} {first : Traced Fault β}
    {before : List α} {next : β → Written α} (given : ¬ ∃ fault, first.result = .error fault)
    (clean : ∀ value, (next value).FailsClean stride before) :
    (Written.after first before next).FailsClean stride before := by
  cases ran : first.result with
  | error fault => exact absurd ⟨fault, ran⟩ given
  | ok value =>
    rw [after_of_ok before next ran]
    exact clean value

end Written

namespace Table

theorem erased_failsClean {table : Table α} {before : List α} (met : Coincidence)
    (room : before.length = table.stride) :
    (table.erased met).FailsClean table.stride before := by
  rintro fault failed
  obtain rfl := Except.error.inj failed
  refine ⟨Nat.le_of_eq room.symm, ?_⟩
  rw [List.drop_of_length_le (Nat.le_of_eq room), List.append_nil]
  rfl

theorem evaluate_failsClean (table : Table α) (x : α) (out : List α) :
    (table.evaluate x out).FailsClean table.stride out := by
  by_cases room : out.length = table.stride
  · cases found : Basis.coincidence? table.locations with
    | none =>
      rw [evaluate_of_distinct room found]
      exact .of_ok rfl
    | some met =>
      rw [evaluate_of_coincidence room found]
      exact erased_failsClean met room
  · rw [evaluate_of_wrong_room room]
    exact .refused _ .outputSize trivial out

/-- A run over many queries fails before the first of them, or at it. -/
theorem evaluateAll_of_error {table : Table α} {queries out : List α} {fault : Fault}
    (failed : (table.evaluateAll queries out).result = .error fault) :
    fault = .dimensionMismatch ∧ (table.evaluateAll queries out).out = out ∨
      ∃ met x rest, Basis.coincidence? table.locations = some met ∧ fault = met.fault ∧
        queries = x :: rest ∧ table.stride ≤ out.length ∧
        (table.evaluateAll queries out).out =
          List.replicate table.stride 0 ++ out.drop table.stride := by
  rcases table.evaluateAll_cases queries out with refused | ⟨room, filled⟩
  · rw [refused] at failed ⊢
    exact .inl ⟨(Except.error.inj failed).symm, rfl⟩
  · rw [filled] at failed ⊢
    cases found : Basis.coincidence? table.locations with
    | none =>
      rw [fill_of_distinct found room] at failed
      contradiction
    | some met =>
      cases queries with
      | nil => contradiction
      | cons x rest =>
        have enough := (room_cons room).1
        rw [fill_of_coincidence found x rest enough] at failed ⊢
        exact .inr ⟨met, x, rest, rfl, (Except.error.inj failed).symm, rfl, enough, rfl⟩

theorem evaluateAll_failsClean (table : Table α) (queries out : List α) :
    (table.evaluateAll queries out).FailsClean table.stride out := by
  intro fault failed
  rcases evaluateAll_of_error failed with ⟨rfl, same⟩ | ⟨met, x, rest, -, rfl, -, room, zeroed⟩
  · exact same
  · exact ⟨room, zeroed⟩

end Table

theorem Lagrange.interpolate_failsClean (x : α) (table : Table α) (out : List α) :
    (Lagrange.interpolate x table out).FailsClean table.stride out := by
  rcases refused_or_checked x table out with ⟨reason, invalid, refused⟩ | ⟨view, rfl, evaluated⟩
  · rw [refused]
    exact .refused _ _ invalid out
  · rw [evaluated]
    exact view.evaluate_failsClean x out

private theorem Chord.interpolate_cases (x : α) (table : Table α) (out : List α) :
    (∃ fault log, Chord.interpolate x table out = ⟨.error fault, out, log⟩) ∨
      ∃ value, Chord.interpolate x table out = .done value := by
  unfold Chord.interpolate
  split
  · split
    · exact .inl ⟨_, _, rfl⟩
    · dsimp only
      split
      · exact .inl ⟨_, _, rfl⟩
      · exact .inr ⟨_, rfl⟩
  · exact .inl ⟨_, _, rfl⟩

/-- The chord writes nothing before its last check. -/
theorem Chord.out_of_error {x : α} {table : Table α} {out : List α} {fault : Fault}
    (failed : (Chord.interpolate x table out).result = .error fault) :
    (Chord.interpolate x table out).out = out := by
  rcases Chord.interpolate_cases x table out with ⟨_, _, refused⟩ | ⟨value, done⟩
  · rw [refused]
  · rw [done] at failed
    contradiction

/-- A call that is handed an output buffer, with everything else that it reads. -/
inductive BufferedCall (α : Type u) where
  /-- A method on a whole table, whatever shape it has. -/
  | interpolate (method : Method) (x : α) (table : Table α)
  /-- All samples of a table at one query. -/
  | evaluate (x : α) (table : Table α)
  /-- All samples of a table at many queries. -/
  | evaluateAll (queries : List α) (table : Table α)
  /-- The samples of a table around one query. -/
  | evaluateWindowed (x : α) (degree : Nat) (table : Table α)
  /-- A method on the samples around one query, whatever shape the table has. -/
  | interpolateWindowed (method : Method) (x : α) (degree : Nat) (table : Table α)

namespace BufferedCall

def run : BufferedCall α → List α → Written α
  | .interpolate method x table, out => method.interpolate x table out
  | .evaluate x table, out => table.evaluate x out
  | .evaluateAll queries table, out => table.evaluateAll queries out
  | .evaluateWindowed x degree table, out => table.evaluateWindowed x degree out
  | .interpolateWindowed method x degree table, out =>
    method.interpolateWindowed x table degree out

omit [Scalar α] in
def table : BufferedCall α → Table α
  | .interpolate _ _ table => table
  | .evaluate _ table => table
  | .evaluateAll _ table => table
  | .evaluateWindowed _ _ table => table
  | .interpolateWindowed _ _ _ table => table

def method : BufferedCall α → Method
  | .interpolate method _ _ => method
  | .interpolateWindowed method _ _ _ => method
  | _ => .lagrange

/-- No window can be selected for the call. -/
def RefusesWindow : BufferedCall α → Prop
  | .evaluateWindowed x degree table =>
    ∃ fault, (Window.select x table.locations (Lagrange.requiredSamples degree)).result =
      .error fault
  | .interpolateWindowed method x degree table =>
    ∃ fault, (Window.select x table.locations (method.requiredSamples degree)).result =
      .error fault
  | _ => False

private theorem out_of_refused_or_linear {call : BufferedCall α} {out : List α} {fault : Fault}
    (failed : (call.run out).result = .error fault)
    (early : call.RefusesWindow ∨ call.method = .linear) : (call.run out).out = out := by
  cases call with
  | interpolate method x table =>
    obtain rfl : method = .linear := early.resolve_left id
    exact Chord.out_of_error failed
  | evaluate x table => rcases early with refused | linear <;> contradiction
  | evaluateAll queries table => rcases early with refused | linear <;> contradiction
  | evaluateWindowed x degree table =>
    obtain ⟨reason, refused⟩ := early.resolve_right Method.noConfusion
    exact congrArg Written.out (Written.after_of_error _ _ refused)
  | interpolateWindowed method x degree table =>
    simp only [run, Method.interpolateWindowed] at failed ⊢
    split at failed
    · next aligned =>
      rw [if_pos aligned]
      cases selected : (Window.select x table.locations (method.requiredSamples degree)).result with
      | error reason => exact congrArg Written.out (Written.after_of_error _ _ selected)
      | ok window =>
        obtain rfl : method = .linear := by
          refine early.resolve_left ?_
          rintro ⟨reason, refused⟩
          rw [selected] at refused
          contradiction
        rw [Written.after_of_ok _ _ selected] at failed ⊢
        exact Chord.out_of_error failed
    · next misaligned => rw [if_neg misaligned]; rfl

private theorem failsClean {call : BufferedCall α} (selects : ¬ call.RefusesWindow)
    (lagrange : call.method = .lagrange) (out : List α) :
    (call.run out).FailsClean call.table.stride out := by
  cases call with
  | interpolate method x table =>
    obtain rfl : method = .lagrange := lagrange
    exact Lagrange.interpolate_failsClean x table out
  | evaluate x table => exact table.evaluate_failsClean x out
  | evaluateAll queries table => exact table.evaluateAll_failsClean queries out
  | evaluateWindowed x degree table =>
    exact .after selects fun window => (table.slice _ _).evaluate_failsClean x out
  | interpolateWindowed method x degree table =>
    obtain rfl : method = .lagrange := lagrange
    simp only [run, Method.interpolateWindowed]
    split
    · exact .after selects fun window => Lagrange.interpolate_failsClean x (table.slice _ _) out
    · exact .refused _ .dimensionMismatch trivial out

private theorem first_query_fails {queries out : List α} {table : Table α} {fault : Fault}
    (failed : (table.evaluateAll queries out).result = .error fault)
    (degenerate : ¬ fault.IsInvalidInput) :
    ∃ x rest, queries = x :: rest ∧
      (table.evaluate x (out.take table.stride)).result = .error fault := by
  rcases Table.evaluateAll_of_error failed with ⟨rfl, -⟩ | ⟨met, x, rest, found, rfl, rfl, room, -⟩
  · exact absurd trivial degenerate
  · refine ⟨x, rest, rfl, ?_⟩
    rw [Table.evaluate_of_coincidence (List.length_take_of_le room) found]
    rfl

/-- A failed call leaves the buffer as it was, unless two locations coincide in an evaluation of the
Lagrange basis: that zeroes one block and nothing else. A run over many queries fails in this way at
its first query only. -/
theorem failure_leaves_no_value (call : BufferedCall α) (out : List α) (fault : Fault)
    (failed : (call.run out).result = .error fault) :
    (call.run out).out.length = out.length ∧
      (fault.IsInvalidInput ∨ call.RefusesWindow ∨ call.method = .linear →
        (call.run out).out = out) ∧
      (¬ (fault.IsInvalidInput ∨ call.RefusesWindow ∨ call.method = .linear) →
        (call.run out).out =
          List.replicate call.table.stride 0 ++ out.drop call.table.stride) ∧
      ∀ queries table, call = .evaluateAll queries table → ¬ fault.IsInvalidInput →
        ∃ x rest, queries = x :: rest ∧
          (table.evaluate x (out.take table.stride)).result = .error fault := by
  by_cases early : call.RefusesWindow ∨ call.method = .linear
  · have same := out_of_refused_or_linear failed early
    refine ⟨congrArg List.length same, fun _ => same, ?_, ?_⟩
    · exact fun late => absurd (.inr early) late
    · rintro queries table rfl
      rcases early with refused | linear <;> contradiction
  · obtain ⟨selects, notLinear⟩ := not_or.mp early
    have lagrange : call.method = .lagrange := by
      cases method : call.method with
      | lagrange => rfl
      | linear => exact absurd method notLinear
    have clean := failsClean selects lagrange out fault failed
    by_cases invalid : fault.IsInvalidInput
    · have same : (call.run out).out = out := by rwa [if_pos invalid] at clean
      exact ⟨congrArg List.length same, fun _ => same, fun late => absurd (.inl invalid) late,
        fun _ _ _ degenerate => absurd invalid degenerate⟩
    · rw [if_neg invalid] at clean
      obtain ⟨room, zeroed⟩ := clean
      refine ⟨?_, ?_, fun _ => zeroed, ?_⟩
      · rw [zeroed, List.length_append, List.length_replicate, List.length_drop]
        exact Nat.add_sub_cancel' room
      · exact fun soon => absurd (soon.resolve_left invalid) early
      · rintro queries table rfl -
        exact first_query_fails failed invalid

/-- The first of two queries to a repeated location clears its block, and the second one keeps what
the buffer held. -/
theorem failure_leaves_no_value_repeated :
    let call : BufferedCall Float := .evaluateAll [2, 3] ⟨[1, 1], [4, 5], 1⟩
    (call.run [7, 8]).result = .error (.degenerateSamples 0 1) ∧
      (call.run [7, 8]).out = [0, 8] := by
  intro call
  have failed : (call.run [7, 8]).result = .error (.degenerateSamples 0 1) := rfl
  obtain ⟨-, -, zeroed, -⟩ := failure_leaves_no_value call [7, 8] _ failed
  refine ⟨failed, zeroed ?_⟩
  rintro (invalid | refused | linear) <;> contradiction

end BufferedCall

end Interpolant
