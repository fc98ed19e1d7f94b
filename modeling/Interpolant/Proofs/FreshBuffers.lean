import Interpolant.Proofs.BatchEvaluation
import Interpolant.Proofs.WindowedOutcome

/-! # Fresh buffers that cannot be made

An interpolation into a buffer of its own makes the buffer first. The stride alone decides whether
that is possible, and a stride that is refused with the table in other calls can be too large for
any buffer. Where the buffer can be made, a table of a wrong shape is refused with the same fault as
it is with a buffer of the caller.
-/

namespace Interpolant

universe u

variable {α : Type u} [Scalar α]

/-- A table whose values are not one block for every sample is refused, whatever the query and the
buffer are. -/
theorem Method.exists_fault_of_ragged (method : Method) {table : Table α} (ragged : table.Ragged) :
    ∃ fault : Fault, fault.IsInvalidInput ∧
      ∀ x out, method.interpolate x table out = .refused fault out := by
  have misaligned := Table.not_aligned_of_ragged ragged
  cases method with
  | lagrange =>
    cases passed : table.checked with
    | ok view =>
      obtain rfl := Table.checked_eq_ok_iff.mp passed
      exact absurd view.aligned misaligned
    | error fault =>
      have invalid := Table.isInvalidInput_of_check (Table.checked_eq_error_iff.mp passed)
      refine ⟨fault, invalid, fun x out => ?_⟩
      rw [interpolate, Lagrange.interpolate, passed]
  | linear =>
    by_cases pair : table.size = 2
    · obtain ⟨x₀, x₁, ends⟩ := List.length_eq_two.mp pair
      refine ⟨.dimensionMismatch, trivial, fun x out => ?_⟩
      rw [interpolate, Chord.interpolate, ends]
      exact if_pos (.inl misaligned)
    · exact ⟨.notTwoSamples, trivial, Chord.interpolate_of_not_two pair⟩

variable [FixedWidth α]

theorem intoFresh_of_not_allocatable {size : Nat} (large : ¬ Allocatable α size)
    (call : List α → Written α) : intoFresh size call = .refused .capacityOverflow :=
  if_neg large

/-- Whatever a call into a fresh buffer is refused for, it is not the making of the buffer. -/
theorem intoFresh_ne_capacityOverflow {size : Nat} (fits : Allocatable α size)
    (call : List α → Written α) : (intoFresh size call).result ≠ .error .capacityOverflow := by
  rw [intoFresh_of_allocatable fits, Ne, Traced.mapFault_result_eq_error_iff]
  exact nofun

namespace Method

/-- There is no result because of the buffer exactly if the stride is too large for one, whatever
the shape of the table is. In a buffer that can be made, values that are not one block for every
sample are refused as in any other buffer. As long as there are samples, and values for all of them
in memory, the buffer can be made. -/
theorem interpolateFresh_outcome (method : Method) (x : α) (table : Table α) :
    ((method.interpolateFresh x table).result = .error .capacityOverflow ↔
        ¬ Allocatable α table.stride) ∧
      (table.Ragged → ∃ fault : Fault, fault.IsInvalidInput ∧
        (∀ out, (method.interpolate x table out).result = .error fault) ∧
        (Allocatable α table.stride →
          (method.interpolateFresh x table).result = .error (.refused fault))) ∧
      (¬ table.Ragged → 0 < table.size → Allocatable α table.values.length →
        Allocatable α table.stride) ∧
      Lagrange.interpolateFresh x table = Method.lagrange.interpolateFresh x table := by
  refine ⟨⟨?_, ?_⟩, ?_, ?_, rfl⟩
  · intro failed fits
    exact intoFresh_ne_capacityOverflow fits _ failed
  · intro large
    rw [interpolateFresh, intoFresh_of_not_allocatable large]
    rfl
  · intro ragged
    obtain ⟨fault, invalid, refused⟩ := method.exists_fault_of_ragged ragged
    refine ⟨fault, invalid, fun out => congrArg Written.result (refused x out), fun fits => ?_⟩
    rw [interpolateFresh, intoFresh_of_allocatable fits, refused]
    rfl
  · intro shaped occupied fits
    obtain ⟨-, values⟩ := not_or.mp shaped
    have fewer : table.stride ≤ table.values.length := by
      rw [Decidable.not_not.mp values]
      exact Nat.le_mul_of_pos_left _ occupied
    exact Nat.le_trans (Nat.mul_le_mul_right _ fewer) fits

/-- The largest stride there is does not go with two samples and no values. A buffer of the caller is
refused for that, and so is a fresh one of a stride just small enough; but there is no buffer of the
largest stride. -/
theorem interpolateFresh_outcome_largest :
    let large : Table Float := ⟨[0, 1], [], Size.largest⟩
    let small : Table Float32 := ⟨[0, 1], [], maxBufferBytes / 4⟩
    (Method.lagrange.interpolate (1 / 2) large []).result = .error .dimensionMismatch ∧
      (Method.lagrange.interpolateFresh (1 / 2) large).result = .error .capacityOverflow ∧
      (Method.linear.interpolateFresh (1 / 2) small).result =
        .error (.refused .dimensionMismatch) := by
  intro large small
  obtain ⟨overflow, -, -, -⟩ := interpolateFresh_outcome .lagrange (1 / 2) large
  obtain ⟨-, refusal, -, -⟩ := interpolateFresh_outcome .linear (1 / 2) small
  obtain ⟨fault, -, buffered, fresh⟩ := refusal (by decide)
  have named : (Method.linear.interpolate (1 / 2) small []).result = .error .dimensionMismatch := by
    decide
  rw [buffered] at named
  rw [Except.error.inj named] at fresh
  exact ⟨by decide, overflow.mpr (by decide), fresh (by decide)⟩

end Method

end Interpolant
