import Interpolant.Proofs.OrderedScalar
import Interpolant.Method
import Mathlib.Data.List.Chain

/-! # The selection of a window

A window is selected from locations that ascend, and from no others: the first adjacent pair that
does not ascend is the fault. Every selected window lies within the table, so that the part of a
table that belongs to it has a proper shape again.
-/

namespace Interpolant

universe u

open OrderedScalar

variable {α : Type u} [Scalar α]

omit [Scalar α] in
theorem related_of_pairwise {R : α → α → Prop} {locations : List α} (ordered : locations.Pairwise R)
    {i j : Nat} {a b : α} (before : i < j) (left : locations[i]? = some a)
    (right : locations[j]? = some b) : R a b := by
  obtain ⟨iBound, rfl⟩ := List.getElem?_eq_some_iff.mp left
  obtain ⟨jBound, rfl⟩ := List.getElem?_eq_some_iff.mp right
  exact List.pairwise_iff_getElem.mp ordered i j iBound jBound before

/-- No location is at or below the one before it. -/
def Ascending (locations : List α) : Prop :=
  locations.IsChain fun left right => ¬ right ≤ left

theorem Ascending.pairwise_lt [OrderedScalar α] {locations : List α}
    (ascending : Ascending locations) (numbers : ∀ a ∈ locations, IsNumber a) :
    locations.Pairwise (· < ·) := by
  have : Trans (fun a b : α => a < b) (fun a b => a < b) fun a b => a < b := ⟨lt_trans⟩
  apply List.isChain_iff_pairwise.mp
  apply List.isChain_iff_getElem.mpr
  intro i bound
  exact lt_of_not_le (numbers _ (List.getElem_mem _)) (numbers _ (List.getElem_mem _))
    (ascending.getElem i bound)

namespace Window

/-- The locations of the samples in a window. -/
def restrict (window : Window) (locations : List α) : List α :=
  (locations.drop window.first).take window.count

omit [Scalar α] in
@[simp] theorem restrict_length {window : Window} {locations : List α}
    (inside : window.stop ≤ locations.length) :
    (window.restrict locations).length = window.count := by
  rw [stop] at inside
  rw [restrict, List.length_take, List.length_drop]
  omega

omit [Scalar α] in
theorem restrict_getElem? {window : Window} {locations : List α} {i : Nat}
    (inside : i < window.count) :
    (window.restrict locations)[i]? = locations[window.first + i]? := by
  rw [restrict, List.getElem?_take_of_lt inside, List.getElem?_drop]

omit [Scalar α] in
theorem restrict_sublist (window : Window) (locations : List α) :
    (window.restrict locations).Sublist locations :=
  (List.take_sublist _ _).trans (List.drop_sublist _ _)

/-- At a position, and at none before it, the next location is at or below the one there. -/
structure IsFirstDescent (locations : List α) (descent : Descent α) : Prop where
  left : locations[descent.position]? = some descent.left
  right : locations[descent.position + 1]? = some descent.right
  down : descent.right ≤ descent.left
  ascending_before : ∀ i < descent.position, ∀ a b, locations[i]? = some a →
    locations[i + 1]? = some b → ¬ b ≤ a

theorem firstDescent_eq_none_iff_ascending {locations : List α} :
    firstDescent 0 locations = none ↔ Ascending locations := by
  rw [firstDescent_eq_none_iff, Ascending, List.isChain_iff_getElem]

private theorem firstDescent_of_isFirstDescent {locations : List α} {i : Nat} {a b : α}
    (descent : IsFirstDescent locations ⟨i, a, b⟩) (position : Nat) :
    firstDescent position locations = some ⟨position + i, a, b⟩ := by
  induction locations generalizing position i with
  | nil => exact absurd descent.left nofun
  | cons left rest ih =>
    cases rest with
    | nil => exact absurd descent.right nofun
    | cons right rest =>
      cases i with
      | zero =>
        obtain rfl : left = a := Option.some.inj descent.left
        obtain rfl : right = b := Option.some.inj descent.right
        exact if_pos descent.down
      | succ i =>
        have up := descent.ascending_before 0 (Nat.zero_lt_succ i) left right rfl rfl
        rw [firstDescent, if_neg up, ih, Nat.succ_add_eq_add_succ]
        refine ⟨descent.left, descent.right, descent.down, fun k before => ?_⟩
        exact descent.ascending_before (k + 1) (Nat.succ_lt_succ before)

private theorem isFirstDescent_of_firstDescent {locations : List α} {position : Nat}
    {descent : Descent α} (found : firstDescent position locations = some descent) :
    ∃ i, descent.position = position + i ∧
      IsFirstDescent locations ⟨i, descent.left, descent.right⟩ := by
  induction locations generalizing position with
  | nil => contradiction
  | cons left rest ih =>
    cases rest with
    | nil => contradiction
    | cons right rest =>
      rw [firstDescent] at found
      split at found
      · next down =>
        obtain rfl := Option.some.inj found
        exact ⟨0, rfl, rfl, rfl, down, fun i before => absurd before (Nat.not_lt_zero i)⟩
      · next up =>
        obtain ⟨i, place, first⟩ := ih found
        refine ⟨i + 1, ?_, first.left, first.right, first.down, ?_⟩
        · rw [place, Nat.succ_add_eq_add_succ]
        · intro k before a b here next
          cases k with
          | zero =>
            obtain rfl : left = a := Option.some.inj here
            obtain rfl : right = b := Option.some.inj next
            exact up
          | succ k => exact first.ascending_before k (Nat.lt_of_succ_lt_succ before) a b here next

/-- The search finds the first descent of a table. -/
theorem firstDescent_eq_some_iff {locations : List α} {descent : Descent α} :
    firstDescent 0 locations = some descent ↔ IsFirstDescent locations descent := by
  obtain ⟨position, left, right⟩ := descent
  constructor
  · intro found
    obtain ⟨i, place, first⟩ := isFirstDescent_of_firstDescent found
    obtain rfl : position = i := place.trans (Nat.zero_add i)
    exact first
  · intro first
    rw [firstDescent_of_isFirstDescent first 0, Nat.zero_add]

theorem select_of_few {locations : List α} (few : locations.length < 2) (x : α) {count : Nat}
    (two : 2 ≤ count) : (select x locations count).result = .error .tooFewSamples := by
  rw [select, if_neg two.not_gt, if_pos few]
  rfl

theorem select_of_isFirstDescent {locations : List α} {descent : Descent α}
    (first : IsFirstDescent locations descent) (x : α) {count : Nat} (two : 2 ≤ count) :
    (select x locations count).result = .error
      (if descent.left == descent.right then
        .degenerateSamples descent.position (descent.position + 1)
      else .notIncreasing) := by
  have size : 2 ≤ locations.length := by
    have ⟨bound, _⟩ := List.getElem?_eq_some_iff.mp first.right
    omega
  rw [select, if_neg two.not_gt, if_neg size.not_gt, firstDescent_eq_some_iff.mpr first]
  dsimp only
  split <;> rfl

/-- A window is found exactly if the locations ascend, and there are enough of them. -/
theorem select_eq_ok_iff {x : α} {locations : List α} {count : Nat} {window : Window} :
    (select x locations count).result = .ok window ↔
      2 ≤ count ∧ 2 ≤ locations.length ∧ Ascending locations ∧
        window = around (below x locations) (min count locations.length) locations.length := by
  simp only [select]
  split
  · next small => exact ⟨nofun, fun ⟨two, _⟩ => absurd two (Nat.not_le.mpr small)⟩
  split
  · next few => exact ⟨nofun, fun ⟨_, size, _⟩ => absurd size (Nat.not_le.mpr few)⟩
  next two size =>
  have enough := Nat.not_lt.mp two
  have size := Nat.not_lt.mp size
  split
  · next found =>
    have down : ¬ Ascending locations := by
      intro ascending
      rw [firstDescent_eq_none_iff_ascending.mpr ascending] at found
      contradiction
    split <;> exact ⟨nofun, fun ⟨_, _, ascending, _⟩ => absurd ascending down⟩
  · next none =>
    have ascending := firstDescent_eq_none_iff_ascending.mp none
    constructor
    · intro found
      exact ⟨enough, size, ascending, (Except.ok.inj found).symm⟩
    · rintro ⟨-, -, -, rfl⟩
      rfl

theorem select_ne_windowTooSmall (x : α) (locations : List α) {count : Nat} (two : 2 ≤ count) :
    (select x locations count).result ≠ .error .windowTooSmall := by
  simp only [select, if_neg two.not_gt]
  split
  · exact nofun
  split
  · split <;> exact nofun
  · exact nofun

/-- A selected window has at least two samples, and it lies within the table. -/
theorem bounds_of_select {x : α} {locations : List α} {count : Nat} {window : Window}
    (selected : (select x locations count).result = .ok window) :
    window.count = min count locations.length ∧ 2 ≤ window.count ∧
      window.stop ≤ locations.length := by
  obtain ⟨enough, size, -, rfl⟩ := select_eq_ok_iff.mp selected
  exact ⟨rfl, Nat.le_min.mpr ⟨enough, size⟩, stop_around_le (Nat.min_le_right _ _)⟩

end Window

namespace Table

omit [Scalar α] in
theorem slice_locations_sublist (table : Table α) (first count : Nat) :
    (table.slice first count).locations.Sublist table.locations :=
  Window.restrict_sublist ⟨first, count⟩ table.locations

end Table

end Interpolant
