import Interpolant.Proofs.WindowPosition
import Interpolant.Proofs.WindowedOutcome

/-! # Locality

An interpolation from a window sees nothing beyond it. If a table has enough samples on both sides
of a query, further samples before and behind it move the window along with the samples in it, and
the value stays the same; so it does if values outside the window change.
-/

namespace Interpolant

universe u

variable {α : Type u}

namespace Table

/-- The table with the samples of other tables before and behind its own. -/
def extend (inner left right : Table α) : Table α where
  locations := left.locations ++ inner.locations ++ right.locations
  values := left.values ++ inner.values ++ right.values
  stride := inner.stride

/-- All three tables have blocks of one length, and fit into one table. -/
structure Extensible (inner left right : Table α) : Prop where
  shape : inner.Aligned
  leftShape : left.Aligned
  rightShape : right.Aligned
  leftStride : left.stride = inner.stride
  rightStride : right.stride = inner.stride
  values_length_le : (inner.extend left right).values.length ≤ Size.largest

theorem Extensible.aligned {inner left right : Table α} (parts : inner.Extensible left right) :
    (inner.extend left right).Aligned := by
  obtain ⟨stride, values, -⟩ := inner.aligned_iff.mp parts.shape
  obtain ⟨-, leftValues, -⟩ := left.aligned_iff.mp parts.leftShape
  obtain ⟨-, rightValues, -⟩ := right.aligned_iff.mp parts.rightShape
  refine (aligned_iff _).mpr ⟨stride, ?_, parts.values_length_le⟩
  rw [parts.leftStride] at leftValues
  rw [parts.rightStride] at rightValues
  simp only [extend, size, List.length_append, Nat.add_mul] at *
  rw [leftValues, values, rightValues]

private theorem take_drop_of_inside (left inner right : List α) {first count : Nat}
    (inside : first + count ≤ inner.length) :
    ((left ++ inner ++ right).drop (left.length + first)).take count =
      (inner.drop first).take count := by
  have room : count ≤ (inner.drop first).length := by
    rw [List.length_drop]
    omega
  rw [List.append_assoc, List.drop_length_add_append, List.drop_append_of_le_length (by omega),
    List.take_append_of_le_length room]

/-- A run of samples has the same locations and blocks wherever it lies in a longer table. -/
theorem extend_slice {inner left right : Table α} (parts : inner.Extensible left right)
    {first count : Nat} (inside : first + count ≤ inner.size) :
    (inner.extend left right).slice (left.size + first) count = inner.slice first count := by
  obtain ⟨-, values, -⟩ := inner.aligned_iff.mp parts.shape
  obtain ⟨-, leftValues, -⟩ := left.aligned_iff.mp parts.leftShape
  have room : first * inner.stride + count * inner.stride ≤ inner.values.length := by
    rw [values, ← Nat.add_mul]
    exact Nat.mul_le_mul_right _ inside
  rw [parts.leftStride] at leftValues
  simp only [slice, extend]
  congr 1
  · exact take_drop_of_inside _ _ _ inside
  · rw [Nat.add_mul, ← leftValues]
    exact take_drop_of_inside _ _ _ room

/-- The table with other values at the same locations. -/
def withValues (table : Table α) (values : List α) : Table α := { table with values }

end Table

namespace Window

/-- Two lists of values are the same in the blocks of a window. -/
def Agree (window : Window) (stride : Nat) (values values' : List α) : Prop :=
  ∀ i, window.first * stride ≤ i → i < window.stop * stride → values[i]? = values'[i]?

theorem Agree.slice_eq {window : Window} {table : Table α} {values : List α}
    (agree : window.Agree table.stride values table.values) :
    (table.withValues values).slice window.first window.count =
      table.slice window.first window.count := by
  simp only [Table.slice, Table.withValues]
  congr 1
  refine List.ext_getElem? fun i => ?_
  rcases Nat.lt_or_ge i (window.count * table.stride) with inside | outside
  · rw [List.getElem?_take_of_lt inside, List.getElem?_take_of_lt inside, List.getElem?_drop,
      List.getElem?_drop]
    refine agree _ (Nat.le_add_right _ _) ?_
    rw [stop, Nat.add_mul]
    exact Nat.add_lt_add_left inside _
  · rw [List.getElem?_eq_none ((List.length_take_le _ _).trans outside),
      List.getElem?_eq_none ((List.length_take_le _ _).trans outside)]

/-- Samples on either side of a table move a window that is not pushed against its ends. -/
theorem around_extend {pivot count size : Nat} (left right : Nat) (before : count / 2 ≤ pivot)
    (behind : pivot + (count - count / 2) ≤ size) :
    around (left + pivot) count (left + size + right) =
      ⟨left + (around pivot count size).first, count⟩ := by
  simp only [around, mk.injEq, and_true]
  omega

variable [Scalar α]

variable [OrderedScalar α]

open OrderedScalar

/-- No location is both below a query and at or above it. -/
theorem countP_add_countP_le (locations : List α) (x : α) :
    locations.countP (· < x) + locations.countP (x ≤ ·) ≤ locations.length := by
  induction locations with
  | nil => exact Nat.le_refl _
  | cons a rest ih =>
    have apart : ¬ (a < x ∧ x ≤ a) := fun ⟨less, up⟩ => (lt_iff.mp less).2 up
    by_cases less : a < x
    · have down : ¬ x ≤ a := fun up => apart ⟨less, up⟩
      simp only [List.countP_cons, less, down, decide_true, decide_false, ↓reduceIte,
        Bool.false_eq_true, List.length_cons]
      omega
    · simp only [List.countP_cons, less, decide_false, Bool.false_eq_true, ↓reduceIte,
        List.length_cons]
      split <;> omega

theorem select_extend {left inner right : List α} {x : α} {count : Nat} (two : 2 ≤ count)
    (increasing : (left ++ inner ++ right).Pairwise (· < ·))
    (before : count / 2 ≤ inner.countP (· < x))
    (behind : count - count / 2 ≤ inner.countP (x ≤ ·)) :
    ∃ window, (select x inner count).result = .ok window ∧
      (select x (left ++ inner ++ right) count).result =
        .ok ⟨left.length + window.first, window.count⟩ := by
  obtain ⟨leftInner, -, -⟩ := List.pairwise_append.mp increasing
  obtain ⟨-, innerIncreasing, across⟩ := List.pairwise_append.mp leftInner
  have both := countP_add_countP_le inner x
  have size : inner.length ≤ (left ++ inner ++ right).length := by
    simp only [List.length_append]
    omega
  have behindInner := (List.pairwise_append.mp increasing).2.2
  -- Some location of the inner table is below the query, so all before it are, and some is not.
  obtain ⟨low, lowMember, lowBelow⟩ := List.countP_pos_iff.mp
    (show 0 < inner.countP (· < x) by omega)
  obtain ⟨high, highMember, highAbove⟩ := List.countP_pos_iff.mp
    (show 0 < inner.countP (x ≤ ·) by omega)
  have leftBelow : left.countP (· < x) = left.length := List.countP_eq_length.mpr fun a member =>
    decide_eq_true (lt_trans (across a member low lowMember) (of_decide_eq_true lowBelow))
  have rightNot : right.countP (· < x) = 0 := by
    refine List.countP_eq_zero.mpr fun a member less => ?_
    have further := behindInner high (List.mem_append_right _ highMember) a member
    have down := lt_trans further (of_decide_eq_true less)
    exact (lt_iff.mp down).2 (of_decide_eq_true highAbove)
  have inside := below_eq_countP innerIncreasing x
  have pivot : below x (left ++ inner ++ right) = left.length + below x inner := by
    rw [below_eq_countP increasing, List.countP_append, List.countP_append, leftBelow, rightNot,
      inside, Nat.add_zero]
  refine ⟨around (below x inner) count inner.length, select_eq_ok_iff.mpr
    ⟨two, by omega, ascending_of_increasing innerIncreasing, ?_⟩, select_eq_ok_iff.mpr
    ⟨two, by omega, ascending_of_increasing increasing, ?_⟩⟩
  · rw [Nat.min_eq_left (by omega)]
  · rw [Nat.min_eq_left (by omega), pivot, List.length_append, List.length_append,
      around_extend left.length right.length (by omega) (by omega)]
    rfl

end Window

namespace Method

variable [Scalar α]

/-- Values outside of the selected window are not looked at. -/
theorem interpolateWindowed_withValues {method : Method} {x : α} {table : Table α} {degree : Nat}
    {window : Window} {values : List α} (shape : table.Aligned)
    (selected : (Window.select x table.locations (method.requiredSamples degree)).result =
      .ok window) (length : values.length = table.values.length)
    (agree : window.Agree table.stride values table.values) (out : List α) :
    method.interpolateWindowed x (table.withValues values) degree out =
      method.interpolateWindowed x table degree out := by
  have aligned : (table.withValues values).Aligned := ⟨shape.1, length ▸ shape.2⟩
  have selected' : (Window.select x (table.withValues values).locations
      (method.requiredSamples degree)).result = .ok window := selected
  rw [interpolateWindowed, interpolateWindowed, if_pos aligned, if_pos shape,
    Written.after_of_ok _ _ selected, Written.after_of_ok _ _ selected', agree.slice_eq]
  rfl

variable [OrderedScalar α]

/-- If a table has half of the samples that a method needs below a query and the other half at or
above it, then samples added before and behind the table move the window by as many positions as
there are new samples before it. The call has the same outcome and leaves the same values in the
buffer as without the new samples, whatever values are stored outside the window. -/
theorem interpolateWindowed_extend (method : Method) (x : α) (inner left right : Table α)
    (degree : Nat) (parts : inner.Extensible left right)
    (increasing : (inner.extend left right).locations.Pairwise (· < ·))
    (before : method.requiredSamples degree / 2 ≤ inner.locations.countP (· < x))
    (behind : method.requiredSamples degree - method.requiredSamples degree / 2 ≤
      inner.locations.countP (x ≤ ·)) :
    ∃ window, (Window.select x inner.locations (method.requiredSamples degree)).result =
        .ok window ∧
      (Window.select x (inner.extend left right).locations
          (method.requiredSamples degree)).result =
        .ok ⟨left.size + window.first, window.count⟩ ∧
      (∀ out, (method.interpolateWindowed x inner degree out).result =
        if out.length = inner.stride then .ok () else .error method.roomFault) ∧
      ∀ values, values.length = (inner.extend left right).values.length →
        (⟨left.size + window.first, window.count⟩ : Window).Agree inner.stride values
          (inner.extend left right).values →
        ∀ out,
          (method.interpolateWindowed x ((inner.extend left right).withValues values) degree
              out).result = (method.interpolateWindowed x inner degree out).result ∧
            (method.interpolateWindowed x ((inner.extend left right).withValues values) degree
              out).out = (method.interpolateWindowed x inner degree out).out := by
  obtain ⟨window, selected, moved⟩ : ∃ window,
      (Window.select x inner.locations (method.requiredSamples degree)).result = .ok window ∧
        (Window.select x (inner.extend left right).locations
          (method.requiredSamples degree)).result =
            .ok ⟨left.size + window.first, window.count⟩ :=
    Window.select_extend (method.two_le_requiredSamples degree) increasing before behind
  obtain ⟨-, -, inside⟩ := Window.bounds_of_select selected
  have innerIncreasing : inner.locations.Pairwise (· < ·) :=
    increasing.sublist (List.infix_append _ _ _).sublist
  refine ⟨window, selected, moved, fun out => ?_, fun values length agree out => ?_⟩
  · rw [interpolateWindowed_of_ok parts.shape selected]
    exact interpolate_slice_result_of_increasing parts.shape innerIncreasing selected x out
  · rw [interpolateWindowed_withValues parts.aligned moved length agree]
    obtain ⟨result, contents⟩ := interpolateWindowed_eq_of_ok parts.shape selected out
    obtain ⟨result', contents'⟩ := interpolateWindowed_eq_of_ok parts.aligned moved out
    dsimp only at result' contents'
    rw [Table.extend_slice parts inside] at result' contents'
    exact ⟨result'.trans result.symm, contents'.trans contents.symm⟩

/-- Three further samples, of which not one value is a number, leave a value between four samples as
it was. -/
theorem interpolateWindowed_extend_nan :
    let inner : Table Float := ⟨[1, 2, 3, 4], [1 / 3, 1 / 7, 1 / 9, 1 / 11], 1⟩
    let extended : Table Float :=
      ⟨[0, 1, 2, 3, 4, 5, 6], [0 / 0, 1 / 3, 1 / 7, 1 / 9, 1 / 11, 0 / 0, 0 / 0], 1⟩
    (lagrange.interpolateWindowed 2.5 extended 3 [0]).result = .ok () ∧
      (lagrange.interpolateWindowed 2.5 extended 3 [0]).out =
        (lagrange.interpolateWindowed 2.5 inner 3 [0]).out := by
  intro inner extended
  have selected : (Window.select 2.5 inner.locations 4).result = .ok ⟨0, 4⟩ := by decide +kernel
  have agree : (⟨1, 4⟩ : Window).Agree 1 extended.values
      [8, 1 / 3, 1 / 7, 1 / 9, 1 / 11, 8, 9] := by
    intro i low high
    have place : i = 1 ∨ i = 2 ∨ i = 3 ∨ i = 4 := by
      change 1 ≤ i at low
      change i < 5 at high
      omega
    rcases place with rfl | rfl | rfl | rfl <;> rfl
  obtain ⟨window, found, -, success, unseen⟩ := interpolateWindowed_extend .lagrange (2.5 : Float)
    inner ⟨[0], [8], 1⟩ ⟨[5, 6], [8, 9], 1⟩ 3
    ⟨by decide, by decide, by decide, rfl, rfl, by decide⟩ (by decide) (by decide) (by decide)
  obtain rfl : window = ⟨0, 4⟩ := Except.ok.inj (found.symm.trans selected)
  obtain ⟨result, contents⟩ := unseen extended.values rfl agree [0]
  exact ⟨result.trans (success [0]), contents⟩

end Method

end Interpolant
