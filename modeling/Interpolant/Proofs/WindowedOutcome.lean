import Interpolant.Proofs.BinaryFloat
import Interpolant.Proofs.Evaluation
import Interpolant.Proofs.Selection

/-! # Outcomes on windows

Three layers check a windowed interpolation: its own shapes, the selection of the window, and the
method on the window. What the first two accept, the third one accepts as well, so that every fault
speaks of the caller's table; only the room in the buffer is left to the method.
-/

namespace Interpolant

universe u

open OrderedScalar

variable {α : Type u}

/-- The values of a table are not one block for every sample. -/
def Table.Ragged (table : Table α) : Prop :=
  table.stride = 0 ∨ table.values.length ≠ table.size * table.stride

instance decidableRagged (table : Table α) : Decidable table.Ragged :=
  inferInstanceAs (Decidable (_ ∨ _))

theorem Table.not_aligned_of_ragged {table : Table α} (ragged : table.Ragged) : ¬ table.Aligned := by
  intro shape
  obtain ⟨stride, values, -⟩ := table.aligned_iff.mp shape
  rcases ragged with zero | apart
  · exact stride.ne' zero
  · exact apart values

theorem Table.aligned_iff_not_ragged {table : Table α}
    (word : table.values.length ≤ Size.largest) : table.Aligned ↔ ¬ table.Ragged := by
  rw [aligned_iff, Ragged, not_or, Decidable.not_not, Nat.pos_iff_ne_zero]
  exact and_congr_right fun _ => and_iff_left word

variable [Scalar α] [OrderedScalar α]

theorem Basis.coincidence?_eq_none_of_increasing {locations : List α}
    (increasing : locations.Pairwise (· < ·)) : coincidence? locations = none := by
  rw [coincidence?_eq_none_iff]
  rintro i j ⟨apart, a, b, left, right, vanishes⟩
  have same := (sub_beq_zero_iff.mp vanishes).2.2
  rcases Nat.lt_or_gt_of_ne apart with before | after
  · exact not_beq_of_lt (related_of_pairwise increasing before left right) same
  · exact not_beq_of_lt (related_of_pairwise increasing after right left) (beq_symm same)

namespace Method

/-- The fault by which a method refuses a buffer that is not as long as a block. -/
def roomFault : Method → Fault
  | .lagrange => .outputSize
  | .linear => .dimensionMismatch

theorem two_le_requiredSamples (method : Method) (degree : Nat) :
    2 ≤ method.requiredSamples degree := by
  cases method with
  | lagrange => exact Nat.le_max_right _ _
  | linear => exact Nat.le_refl _

private theorem chord_result {table : Table α} (shape : table.Aligned) (pair : table.size = 2)
    (increasing : table.locations.Pairwise (· < ·)) (x : α) (out : List α) :
    (Chord.interpolate x table out).result =
      if out.length = table.stride then .ok () else .error .dimensionMismatch := by
  obtain ⟨x₀, x₁, ends⟩ := List.length_eq_two.mp pair
  have less : x₀ < x₁ := List.rel_of_pairwise_cons (ends ▸ increasing) List.mem_cons_self
  have gap : ¬ (x₁ - x₀ == 0) = true :=
    sub_not_beq_zero fun same => not_beq_of_lt less (beq_symm same)
  by_cases room : out.length = table.stride
  · rw [if_pos room, Chord.interpolate_of_ends shape room ends, if_neg gap]
    rfl
  · rw [if_neg room, Chord.interpolate, ends]
    exact congrArg Written.result (if_pos (.inr room))

/-- On increasing locations, only the room in the buffer is left to fail for. -/
theorem interpolate_result_of_increasing {method : Method} (table : CheckedTable α)
    (pair : method = .linear → table.size = 2) (increasing : table.locations.Pairwise (· < ·))
    (x : α) (out : List α) : (method.interpolate x table out).result =
      if out.length = table.stride then .ok () else .error method.roomFault := by
  cases method with
  | lagrange =>
    rw [interpolate, Lagrange.interpolate_checked]
    split
    · next room =>
      rw [Table.evaluate_of_distinct room (Basis.coincidence?_eq_none_of_increasing increasing)]
      rfl
    · next room =>
      rw [Table.evaluate_of_wrong_room room]
      rfl
  | linear => exact chord_result table.aligned (pair rfl) increasing x out

omit [Scalar α] [OrderedScalar α] in
/-- A chord is drawn through the two samples of a window. -/
theorem slice_size_of_linear {method : Method} {table : Table α} {degree : Nat} {window : Window}
    (count : window.count = min (method.requiredSamples degree) table.size)
    (two : 2 ≤ window.count) (inside : window.stop ≤ table.size) (linear : method = .linear) :
    (table.slice window.first window.count).size = 2 := by
  subst linear
  rw [Table.slice_size inside]
  exact Nat.le_antisymm (count.le.trans (Nat.min_le_left _ _)) two

theorem interpolate_slice_result_of_increasing {method : Method} {table : Table α} {x : α}
    {degree : Nat} {window : Window} (shape : table.Aligned)
    (increasing : table.locations.Pairwise (· < ·))
    (selected : (Window.select x table.locations (method.requiredSamples degree)).result =
      .ok window) (y : α) (out : List α) :
    (method.interpolate y (table.slice window.first window.count) out).result =
      if out.length = table.stride then .ok () else .error method.roomFault := by
  obtain ⟨count, two, inside⟩ := Window.bounds_of_select selected
  exact interpolate_result_of_increasing (shape.part two inside)
    (slice_size_of_linear count two inside)
    (increasing.sublist (table.slice_locations_sublist _ _)) y out

/-- The method accepts the part of a table that belongs to the window selected for it. -/
theorem interpolate_slice_result {method : Method} {table : Table α} {x : α} {degree : Nat}
    {window : Window} (shape : table.Aligned) (numbers : ∀ a ∈ table.locations, IsNumber a)
    (selected : (Window.select x table.locations (method.requiredSamples degree)).result =
      .ok window) (y : α) (out : List α) :
    (method.interpolate y (table.slice window.first window.count) out).result =
      if out.length = table.stride then .ok () else .error method.roomFault := by
  obtain ⟨-, -, ascending, -⟩ := Window.select_eq_ok_iff.mp selected
  exact interpolate_slice_result_of_increasing shape (ascending.pairwise_lt numbers) selected y out

omit [OrderedScalar α] in
/-- With a window selected, the method is left to run on its part of the table. -/
theorem interpolateWindowed_eq_of_ok {method : Method} {table : Table α} {x : α} {degree : Nat}
    {window : Window} (shape : table.Aligned)
    (selected : (Window.select x table.locations (method.requiredSamples degree)).result =
      .ok window) (out : List α) :
    (method.interpolateWindowed x table degree out).result =
        (method.interpolate x (table.slice window.first window.count) out).result ∧
      (method.interpolateWindowed x table degree out).out =
        (method.interpolate x (table.slice window.first window.count) out).out := by
  rw [interpolateWindowed, if_pos shape, Written.after_of_ok _ _ selected]
  exact ⟨rfl, rfl⟩

omit [OrderedScalar α] in
theorem interpolateWindowed_of_ok {method : Method} {table : Table α} {x : α} {degree : Nat}
    {window : Window} (shape : table.Aligned)
    (selected : (Window.select x table.locations (method.requiredSamples degree)).result =
      .ok window) (out : List α) :
    (method.interpolateWindowed x table degree out).result =
      (method.interpolate x (table.slice window.first window.count) out).result :=
  (interpolateWindowed_eq_of_ok shape selected out).1

omit [OrderedScalar α] in
theorem interpolateWindowed_of_error {method : Method} {table : Table α} {x : α} {degree : Nat}
    {fault : Fault} (shape : table.Aligned)
    (failed : (Window.select x table.locations (method.requiredSamples degree)).result =
      .error fault) (out : List α) :
    (method.interpolateWindowed x table degree out).result = .error fault := by
  rw [interpolateWindowed, if_pos shape, Written.after_of_error _ _ failed]

/-- The shape of the table comes first, then the number of samples, then the first pair of locations
that does not ascend, then the room in the buffer; and there is no other fault. In particular the
window is never too small, and the method finds nothing wrong with the samples in it. -/
theorem interpolateWindowed_outcome (method : Method) (x : α) (table : Table α) (degree : Nat)
    (out : List α) (numbers : ∀ a ∈ table.locations, IsNumber a)
    (word : table.values.length ≤ Size.largest) :
    (table.Ragged →
        (method.interpolateWindowed x table degree out).result = .error .dimensionMismatch) ∧
      (¬ table.Ragged → table.size < 2 →
        (method.interpolateWindowed x table degree out).result = .error .tooFewSamples) ∧
      (∀ i a b, ¬ table.Ragged → Window.IsFirstDescent table.locations ⟨i, a, b⟩ →
        ((a == b) = true → (method.interpolateWindowed x table degree out).result =
          .error (.degenerateSamples i (i + 1))) ∧
        (b < a → (method.interpolateWindowed x table degree out).result =
          .error .notIncreasing)) ∧
      (¬ table.Ragged → 2 ≤ table.size → Ascending table.locations →
        (method.interpolateWindowed x table degree out).result =
          if out.length = table.stride then .ok () else .error method.roomFault) ∧
      (Window.select x table.locations (method.requiredSamples degree)).result ≠
        .error .windowTooSmall ∧
      ∀ window, ¬ table.Ragged →
        (Window.select x table.locations (method.requiredSamples degree)).result = .ok window →
        ∀ buffer fault,
          (method.interpolate x (table.slice window.first window.count) buffer).result =
            .error fault →
          fault = method.roomFault := by
  have two := method.two_le_requiredSamples degree
  have aligned := Table.aligned_iff_not_ragged word
  refine ⟨?_, ?_, ?_, ?_, Window.select_ne_windowTooSmall x table.locations two, ?_⟩
  · intro ragged
    rw [interpolateWindowed, if_neg fun shape => absurd ragged (aligned.mp shape)]
    rfl
  · intro shaped few
    exact interpolateWindowed_of_error (aligned.mpr shaped) (Window.select_of_few few x two) out
  · intro i a b shaped descent
    have failed := interpolateWindowed_of_error (aligned.mpr shaped)
      (Window.select_of_isFirstDescent descent x two) out
    constructor
    · intro same
      rw [failed, if_pos same]
    · intro above
      have apart : ¬ (a == b) = true := fun same => not_beq_of_lt above (beq_symm same)
      rw [failed, if_neg apart]
  · intro shaped size ascending
    have selected : (Window.select x table.locations (method.requiredSamples degree)).result =
        .ok _ := Window.select_eq_ok_iff.mpr ⟨two, size, ascending, rfl⟩
    rw [interpolateWindowed_of_ok (aligned.mpr shaped) selected]
    exact interpolate_slice_result (aligned.mpr shaped) numbers selected x out
  · intro window shaped selected buffer fault failed
    rw [interpolate_slice_result (aligned.mpr shaped) numbers selected] at failed
    split at failed
    · contradiction
    · exact (Except.error.inj failed).symm

/-- A repeated location is named by its place in the whole table, and a table that ends in infinity
is interpolated all the same. -/
theorem interpolateWindowed_outcome_infinite :
    (interpolateWindowed .lagrange (6 : Float) ⟨[1, 2, 4, 4, 1 / 0], [3, 5, 7, 9, 8], 1⟩ 1
        [0]).result = .error (.degenerateSamples 2 3) ∧
      (interpolateWindowed .linear (6 : Float) ⟨[1, 2, 4, 1 / 0], [3, 5, 7, 9], 1⟩ 1
        [0]).result = .ok () := by
  constructor
  · obtain ⟨-, -, descending, -⟩ := interpolateWindowed_outcome .lagrange (6 : Float)
      ⟨[1, 2, 4, 4, 1 / 0], [3, 5, 7, 9, 8], 1⟩ 1 [0] (by decide) (by decide)
    exact (descending 2 4 4 (by decide) (Window.firstDescent_eq_some_iff.mp rfl)).1 (by decide)
  · obtain ⟨-, -, -, success, -⟩ := interpolateWindowed_outcome .linear (6 : Float)
      ⟨[1, 2, 4, 1 / 0], [3, 5, 7, 9], 1⟩ 1 [0] (by decide) (by decide)
    have none : Window.firstDescent 0 ([1, 2, 4, 1 / 0] : List Float) = none := rfl
    exact success (by decide) (by decide) (Window.firstDescent_eq_none_iff_ascending.mp none)

end Method

end Interpolant
