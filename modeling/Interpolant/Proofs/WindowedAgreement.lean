import Interpolant.Proofs.Outcome
import Interpolant.Proofs.WindowPosition
import Interpolant.Proofs.WindowedOutcome

/-! # Windows and the tables they are taken from

A table whose shape was checked once has no part that would fail the check, so that the window can
be evaluated with a second check or without it. A window that takes in the whole table leaves
nothing to select: the values are those of the whole table, and if locations repeat, the search for
a descent finds the same two samples as the evaluation.
-/

namespace Interpolant

universe u

open OrderedScalar

variable {α : Type u}

namespace Table

theorem slice_whole {table : Table α} (shape : table.Aligned) :
    table.slice 0 table.size = table := by
  obtain ⟨-, values, -⟩ := table.aligned_iff.mp shape
  have locations : table.locations.take table.size = table.locations := List.take_length
  have blocks : table.values.take (table.size * table.stride) = table.values :=
    values ▸ List.take_length
  rw [slice, Nat.zero_mul, List.drop_zero, List.drop_zero, locations, blocks]

variable [Scalar α]

/-- A table whose shape was checked before has no part that fails the check. -/
theorem evaluateWindowed_eq_interpolateWindowed {table : Table α} (shape : table.Aligned) (x : α)
    (degree : Nat) (out : List α) :
    table.evaluateWindowed x degree out =
      Method.lagrange.interpolateWindowed x table degree out := by
  rw [Method.interpolateWindowed, if_pos shape, evaluateWindowed]
  change _ = Written.after (Window.select x table.locations (Lagrange.requiredSamples degree)) _ _
  cases selected : (Window.select x table.locations (Lagrange.requiredSamples degree)).result with
  | error fault => rw [Written.after_of_error _ _ selected, Written.after_of_error _ _ selected]
  | ok window =>
    obtain ⟨-, two, inside⟩ := Window.bounds_of_select selected
    have part : Lagrange.interpolate x (table.slice window.first window.count) out =
        (table.slice window.first window.count).evaluate x out :=
      Lagrange.interpolate_checked x (shape.part two inside) out
    rw [Written.after_of_ok _ _ selected, Written.after_of_ok _ _ selected, Method.interpolate, part]

/-- With a check of the window or without it, the result, the contents of the buffer and the log are
the same. A table whose own shape is refused is refused in a windowed interpolation as well, which
writes nothing then. -/
theorem evaluateWindowed_agrees (x : α) (table : Table α) (degree : Nat) (out : List α) :
    (∀ view, table.checked = .ok view →
        view.evaluateWindowed x degree out =
          Method.lagrange.interpolateWindowed x table degree out) ∧
      ∀ fault, table.checked = .error fault →
        (∃ reason, reason.IsInvalidInput ∧
          (Method.lagrange.interpolateWindowed x table degree out).result = .error reason) ∧
        (Method.lagrange.interpolateWindowed x table degree out).out = out := by
  constructor
  · intro view passed
    obtain rfl := checked_eq_ok_iff.mp passed
    exact evaluateWindowed_eq_interpolateWindowed view.aligned x degree out
  · intro fault failed
    by_cases shape : table.Aligned
    · -- The blocks are in order, so it must be the number of samples.
      have few : table.size < 2 := by
        refine Nat.lt_of_not_le fun two => ?_
        obtain ⟨stride, values, word⟩ := table.aligned_iff.mp shape
        rw [checked_of_wellFormed ⟨stride, two, values, word⟩] at failed
        contradiction
      have refused := Window.select_of_few few x (Method.lagrange.two_le_requiredSamples degree)
      rw [Method.interpolateWindowed, if_pos shape, Written.after_of_error _ _ refused]
      exact ⟨⟨.tooFewSamples, trivial, rfl⟩, rfl⟩
    · rw [Method.interpolateWindowed, if_neg shape]
      exact ⟨⟨.dimensionMismatch, trivial, rfl⟩, rfl⟩

/-- The search for the query goes on behind a location that is no number, and both ways lead to the
last two of four samples. A single sample is refused by both. -/
theorem evaluateWindowed_agrees_nan :
    let table : Table Float := ⟨[0 / 0, 1, 2, 3], [7, 2, 5, 1], 1⟩
    let single : Table Float := ⟨[0], [2], 1⟩
    table.evaluateWindowed (5 / 2) 1 [9] = Method.lagrange.interpolateWindowed (5 / 2) table 1 [9] ∧
      (table.evaluateWindowed (5 / 2) 1 [9]).out = [3] ∧
      (table.evaluateWindowed (5 / 2) 1 [9]).log = [.selected 2 4 4] ∧
      (Method.lagrange.interpolateWindowed (5 / 2) single 1 [9]).out = [9] := by
  intro table single
  have shape : table.WellFormed := ⟨by decide, by decide, by decide, by decide⟩
  have refused : single.checked = .error .tooFewSamples := checked_eq_error_iff.mpr rfl
  obtain ⟨agrees, -⟩ := evaluateWindowed_agrees (5 / 2) table 1 [9]
  obtain ⟨-, unchanged⟩ := (evaluateWindowed_agrees (5 / 2) single 1 [9]).2 _ refused
  exact ⟨agrees ⟨table, shape⟩ (checked_of_wellFormed shape), by decide +kernel, by decide +kernel,
    unchanged⟩

end Table

namespace Window

variable [Scalar α]

theorem select_of_covers {locations : List α} {count : Nat} (size : 2 ≤ locations.length)
    (covers : locations.length ≤ count) (ascending : Ascending locations) (x : α) :
    (select x locations count).result = .ok ⟨0, locations.length⟩ := by
  refine select_eq_ok_iff.mpr ⟨size.trans covers, size, ascending, ?_⟩
  rw [around, Nat.min_eq_right covers, Nat.sub_self, Nat.min_zero]

variable [OrderedScalar α]

/-- In sorted locations the first two that do not ascend are the first two that are equal. -/
theorem IsFirstDescent.firstRepeat {locations : List α} {descent : Descent α}
    (sorted : locations.Pairwise (· ≤ ·)) (first : IsFirstDescent locations descent) :
    Basis.FirstRepeat locations descent.position (descent.position + 1) := by
  have up := related_of_pairwise sorted (Nat.lt_succ_self _) first.left first.right
  refine ⟨⟨Nat.lt_succ_self _, _, _, first.left, first.right, beq_iff.mpr ⟨up, first.down⟩⟩, ?_⟩
  rintro i j ⟨before, a, b, left, right, same⟩
  -- All locations from one of two equal ones to the other one are equal, the next one too.
  obtain ⟨next, here⟩ : ∃ next, locations[i + 1]? = some next := by
    have inside : i + 1 < locations.length := by
      have ⟨bound, _⟩ := List.getElem?_eq_some_iff.mp right
      omega
    exact ⟨_, List.getElem?_eq_getElem inside⟩
  have down : next ≤ a := by
    rcases Nat.lt_or_eq_of_le (Nat.succ_le_of_lt before) with further | rfl
    · exact le_trans (related_of_pairwise sorted further here right) (beq_iff.mp same).2
    · obtain rfl := Option.some.inj (here.symm.trans right)
      exact (beq_iff.mp same).2
  have least : descent.position ≤ i := Nat.le_of_not_lt fun less =>
    first.ascending_before i less a next left here down
  omega

theorem exists_firstRepeat {locations : List α} (finite : ∀ a ∈ locations, IsFinite a)
    (sorted : locations.Pairwise (· ≤ ·)) (repeated : ¬ locations.Pairwise (· < ·)) :
    ∃ descent, IsFirstDescent locations descent ∧ (descent.left == descent.right) = true ∧
      Basis.FirstRepeat locations descent.position (descent.position + 1) := by
  cases found : firstDescent 0 locations with
  | none =>
    have ascending := firstDescent_eq_none_iff_ascending.mp found
    exact absurd (ascending.pairwise_lt fun a member => isNumber_of_isFinite (finite a member))
      repeated
  | some descent =>
    have first := firstDescent_eq_some_iff.mp found
    have repeats := first.firstRepeat sorted
    obtain ⟨-, a, b, left, right, same⟩ := repeats.1
    obtain rfl := Option.some.inj (left.symm.trans first.left)
    obtain rfl := Option.some.inj (right.symm.trans first.right)
    exact ⟨descent, first, same, repeats⟩

end Window

namespace Lagrange

variable [Scalar α] [OrderedScalar α]

theorem interpolate_of_firstRepeat {table : CheckedTable α} {out : List α}
    (room : out.length = table.stride) (finite : ∀ a ∈ table.locations, IsFinite a) {i j : Nat}
    (first : Basis.FirstRepeat table.locations i j) (x : α) :
    (interpolate x table out).result = .error (.degenerateSamples i j) := by
  have found := (Basis.coincidence?_eq_some_iff_of_finite finite).mpr first
  rw [interpolate_checked, Table.evaluate_of_coincidence room found]
  exact congrArg Except.error (Coincidence.fault_of_lt first.1.1)

/-- If the degree asks for as many samples as there are, or for more, a windowed interpolation is
one through all samples: it leaves the same values in the buffer, or it names the same two samples,
the first two with the same location. -/
theorem interpolateWindowed_covering (x : α) (table : Table α) (degree : Nat) (out : List α)
    (shape : table.WellFormed) (room : out.length = table.stride)
    (finite : ∀ a ∈ table.locations, IsFinite a) (sorted : table.locations.Pairwise (· ≤ ·))
    (covers : table.size ≤ requiredSamples degree) :
    (table.locations.Pairwise (· < ·) →
        (interpolate x table out).result = .ok () ∧
        (Method.lagrange.interpolateWindowed x table degree out).result = .ok () ∧
        (Method.lagrange.interpolateWindowed x table degree out).out =
          (interpolate x table out).out ∧
        (table.evaluateWindowed x degree out).result = .ok () ∧
        (table.evaluateWindowed x degree out).out = (interpolate x table out).out) ∧
      (¬ table.locations.Pairwise (· < ·) → ∃ i j, Basis.FirstRepeat table.locations i j ∧
        (interpolate x table out).result = .error (.degenerateSamples i j) ∧
        (Method.lagrange.interpolateWindowed x table degree out).result =
          .error (.degenerateSamples i j) ∧
        (table.evaluateWindowed x degree out).result = .error (.degenerateSamples i j)) := by
  obtain ⟨table, rfl⟩ := shape.exists_checked
  rw [Table.evaluateWindowed_eq_interpolateWindowed table.aligned]
  constructor
  · intro increasing
    have success : (interpolate x table out).result = .ok () := by
      have only := Method.lagrange.interpolate_result_of_increasing table nofun increasing x out
      rwa [if_pos room] at only
    have selected := Window.select_of_covers table.two_le_size covers
      (Window.ascending_of_increasing increasing) x
    obtain ⟨result, contents⟩ : _ = (interpolate x (table.slice 0 table.size) out).result ∧
        _ = (interpolate x (table.slice 0 table.size) out).out :=
      Method.lagrange.interpolateWindowed_eq_of_ok table.aligned selected out
    rw [Table.slice_whole table.aligned] at result contents
    rw [success] at result
    exact ⟨success, result, contents, result, contents⟩
  · intro repeated
    obtain ⟨⟨i, a, b⟩, descent, same, first⟩ := Window.exists_firstRepeat finite sorted repeated
    have two := Method.lagrange.two_le_requiredSamples degree
    have failed := Method.interpolateWindowed_of_error table.aligned
      (Window.select_of_isFirstDescent descent x two) out
    rw [if_pos same] at failed
    exact ⟨i, i + 1, first, interpolate_of_firstRepeat room finite first x, failed, failed⟩

/-- The largest degree there is asks for all samples, also of a table whose last three locations are
equal, and also if the query is no number. -/
theorem interpolateWindowed_covering_largest :
    let table : Table Float := ⟨[0, 1, 3], [2, 5, 1], 1⟩
    let repeated : Table Float := ⟨[0, 1, 1, 1], [2, 5, 1, 7], 1⟩
    (table.evaluateWindowed 2 Size.largest [9]).out = (interpolate 2 table [9]).out ∧
      (interpolate (0 / 0) repeated [9]).result = .error (.degenerateSamples 1 2) ∧
      (Method.lagrange.interpolateWindowed (0 / 0) repeated Size.largest [9]).result =
        .error (.degenerateSamples 1 2) := by
  intro table repeated
  have finite : ∀ a ∈ table.locations, a.isFinite = true := by decide
  have finite' : ∀ a ∈ repeated.locations, a.isFinite = true := by decide
  obtain ⟨same, -⟩ := interpolateWindowed_covering 2 table Size.largest [9]
    ⟨by decide, by decide, by decide, by decide⟩ rfl finite (by decide) (by decide)
  obtain ⟨-, fault⟩ := interpolateWindowed_covering (0 / 0) repeated Size.largest [9]
    ⟨by decide, by decide, by decide, by decide⟩ rfl finite' (by decide) (by decide)
  obtain ⟨-, -, -, -, contents⟩ := same (by decide)
  obtain ⟨_, _, -, whole, windowed, -⟩ := fault (by decide)
  have named : (interpolate (0 / 0) repeated [9]).result = .error (.degenerateSamples 1 2) := rfl
  rw [named] at whole
  exact ⟨contents, named, windowed.trans whole.symm⟩

end Lagrange

end Interpolant
