import Interpolant.Proofs.Locality

/-! # Windows centred on a query

In an increasing table the locations below a query are the first ones, so that their number tells for
every part of the table how it lies around the query. The selected window has half of its samples,
rounded down, below the query, and it is pushed to an end of the table that has too few of them. There
is no other window like that. A query between the first and the last sample is between two samples of
its window as well, so that it is not extrapolated from it.
-/

namespace Interpolant

universe u

open OrderedScalar

namespace Window

variable {α : Type u}

theorem eq_around_iff {window : Window} {pivot count size : Nat} :
    window = around pivot count size ↔
      window.first = min (pivot - count / 2) (size - count) ∧ window.count = count := by
  obtain ⟨first, length⟩ := window
  simp only [around, mk.injEq]

variable [Scalar α]

/-- A window of `count` samples is centred on `x` as far as the ends of the table allow. -/
structure Centred (locations : List α) (x : α) (count : Nat) (window : Window) : Prop where
  count_eq : window.count = count
  inside : window.stop ≤ locations.length
  /-- A query in the range of the table is in the range of the window. -/
  bracket : ∀ least greatest, locations[0]? = some least →
    locations[locations.length - 1]? = some greatest → least ≤ x → x ≤ greatest →
    ∃ low high, locations[window.first]? = some low ∧
      locations[window.stop - 1]? = some high ∧ low ≤ x ∧ x ≤ high
  /-- The two halves of the window are on the two sides of the query if the table has enough
  samples there. -/
  balanced : count / 2 ≤ locations.countP (· < x) →
    count - count / 2 ≤ locations.length - locations.countP (· < x) →
    (window.restrict locations).countP (· < x) = count / 2 ∧
      (window.restrict locations).countP (x ≤ ·) = count - count / 2
  /-- With too few samples below the query, the window has all of them. -/
  at_start : locations.countP (· < x) < count / 2 → window.first = 0
  /-- With too few samples at or above the query, the window has all of them. -/
  at_end : locations.length - locations.countP (· < x) < count - count / 2 →
    window.stop = locations.length

variable [OrderedScalar α] {locations : List α} {x : α}

/-- The locations below a query are the first ones. -/
theorem lt_iff_lt_below (increasing : locations.Pairwise (· < ·)) {i : Nat} {a : α}
    (here : locations[i]? = some a) : a < x ↔ i < below x locations :=
  (inGap_below x locations).lt_iff increasing here

/-- Every number is on one side of the query. -/
theorem countP_add_countP (numbers : ∀ a ∈ locations, IsNumber a) (number : IsNumber x) :
    locations.countP (· < x) + locations.countP (x ≤ ·) = locations.length := by
  rw [List.length_eq_countP_add_countP (· < x)]
  congr 1
  refine List.countP_congr fun a member => ?_
  have other : x ≤ a ↔ ¬ a < x := ⟨not_lt_of_le, le_of_not_lt (numbers a member) number⟩
  simp only [decide_eq_true_eq, other]

theorem below_restrict (increasing : locations.Pairwise (· < ·)) {window : Window}
    (inside : window.stop ≤ locations.length) :
    below x (window.restrict locations) =
      min (below x locations - window.first) window.count := by
  refine InGap.below_eq ⟨?_, ?_, ?_⟩ (increasing.sublist (window.restrict_sublist locations))
  · rw [restrict_length inside]
    exact Nat.min_le_right _ _
  · intro i a last here
    obtain ⟨part, within⟩ := Nat.lt_min.mp (Nat.lt_of_succ_le (Nat.le_of_eq last))
    rw [restrict_getElem? within] at here
    exact (lt_iff_lt_below increasing here).mpr (by omega)
  · intro a here less
    have within : min (below x locations - window.first) window.count < window.count := by
      have ⟨bound, _⟩ := List.getElem?_eq_some_iff.mp here
      rwa [restrict_length inside] at bound
    rw [restrict_getElem? within] at here
    have before := (lt_iff_lt_below increasing here).mp less
    omega

/-- The samples of a window that are below a query are counted by its place among all samples. -/
theorem countP_restrict (increasing : locations.Pairwise (· < ·)) {window : Window}
    (inside : window.stop ≤ locations.length) :
    (window.restrict locations).countP (· < x) =
      min (locations.countP (· < x) - window.first) window.count := by
  have part := increasing.sublist (window.restrict_sublist locations)
  rw [← below_eq_countP part, ← below_eq_countP increasing]
  exact below_restrict increasing inside

/-- There is only one centred window. -/
theorem Centred.eq_around (increasing : locations.Pairwise (· < ·)) {count : Nat} (two : 2 ≤ count)
    {window : Window} (centred : window.Centred locations x count) :
    window = around (below x locations) count locations.length := by
  have below_le := below_le_length x locations
  have count_eq := centred.count_eq
  have inside := centred.inside
  have balanced := fun before behind => (centred.balanced before behind).1
  have at_start := centred.at_start
  have at_end := centred.at_end
  rw [countP_restrict increasing inside] at balanced
  simp only [← below_eq_countP increasing] at balanced at_start at_end
  rw [stop] at inside at_end
  refine eq_around_iff.mpr ⟨?_, count_eq⟩
  rcases Nat.lt_or_ge (below x locations) (count / 2) with few | before
  · have := at_start few
    omega
  rcases Nat.lt_or_ge (locations.length - below x locations) (count - count / 2) with few | behind
  · have := at_end few
    omega
  · have := balanced before behind
    omega

private theorem le_query (increasing : locations.Pairwise (· < ·)) {least a : α}
    (first : locations[0]? = some least) (low : least ≤ x) {i : Nat} (here : locations[i]? = some a)
    (place : i = 0 ∨ i < below x locations) : a ≤ x := by
  rcases place with rfl | before
  · exact Option.some.inj (first.symm.trans here) ▸ low
  · exact (lt_iff.mp ((lt_iff_lt_below increasing here).mpr before)).1

private theorem query_le (increasing : locations.Pairwise (· < ·))
    (numbers : ∀ a ∈ locations, IsNumber a) (number : IsNumber x) {greatest a : α}
    (last : locations[locations.length - 1]? = some greatest) (high : x ≤ greatest) {i : Nat}
    (here : locations[i]? = some a) (place : i = locations.length - 1 ∨ below x locations ≤ i) :
    x ≤ a := by
  rcases place with rfl | behind
  · exact Option.some.inj (last.symm.trans here) ▸ high
  · refine le_of_not_lt (numbers a (List.mem_of_getElem? here)) number fun less => ?_
    exact behind.not_gt ((lt_iff_lt_below increasing here).mp less)

/-- There is a centred window: the one with half of its samples before the first location that is
not below the query, as far as the ends of the table allow. -/
theorem Centred.of_eq_around (increasing : locations.Pairwise (· < ·))
    (numbers : ∀ a ∈ locations, IsNumber a) (number : IsNumber x) {count : Nat} (two : 2 ≤ count)
    (fits : count ≤ locations.length) {window : Window}
    (place : window = around (below x locations) count locations.length) :
    window.Centred locations x count := by
  have bound := below_le_length x locations
  have inside : window.stop ≤ locations.length := place ▸ stop_around_le fits
  obtain ⟨first_eq, count_eq⟩ := eq_around_iff.mp place
  have stop_eq : window.stop = window.first + window.count := rfl
  refine ⟨count_eq, inside, ?_, ?_, ?_, ?_⟩
  · intro least greatest first last low high
    have bottom := List.getElem?_eq_getElem (show window.first < locations.length by omega)
    have top := List.getElem?_eq_getElem (show window.stop - 1 < locations.length by omega)
    refine ⟨_, _, bottom, top, ?_, ?_⟩
    · exact le_query increasing first low bottom (by omega)
    · exact query_le increasing numbers number last high top (by omega)
  · rw [← below_eq_countP increasing]
    intro before behind
    have low := countP_restrict (x := x) increasing inside
    have both := countP_add_countP (x := x) (fun a member =>
      numbers a ((window.restrict_sublist locations).mem member)) number
    rw [← below_eq_countP increasing] at low
    rw [restrict_length inside] at both
    omega
  · rw [← below_eq_countP increasing]
    omega
  · rw [← below_eq_countP increasing]
    omega

/-- The selected window is centred on the query, and no other window is. -/
theorem select_centred (increasing : locations.Pairwise (· < ·))
    (numbers : ∀ a ∈ locations, IsNumber a) (size : 2 ≤ locations.length) (number : IsNumber x)
    {count : Nat} (two : 2 ≤ count) :
    ∃ window, (select x locations count).result = .ok window ∧
      window.Centred locations x (min count locations.length) ∧
      ∀ other : Window, other.Centred locations x (min count locations.length) →
        other = window := by
  have enough : 2 ≤ min count locations.length := Nat.le_min.mpr ⟨two, size⟩
  refine ⟨_, (inGap_below x locations).select_eq increasing size two, ?_, ?_⟩
  · exact .of_eq_around increasing numbers number enough (Nat.min_le_right _ _) rfl
  · exact fun other centred => centred.eq_around increasing enough

/-- Five of six samples are centred on a query between the third and the fourth one, the last three
on infinity, which is the last location, and all six on any query if more are asked for. -/
theorem select_centred_infinite :
    let locations : List Float := [0, 1, 2, 3, 4, 1 / 0]
    (select 2.5 locations 5).result = .ok ⟨1, 5⟩ ∧
      (⟨1, 5⟩ : Window).Centred locations 2.5 5 ∧
      (select (1 / 0) locations 3).result = .ok ⟨3, 3⟩ ∧
      (⟨3, 3⟩ : Window).Centred locations (1 / 0) 3 ∧
      (⟨0, 6⟩ : Window).Centred locations 2.5 (min Size.largest 6) := by
  intro locations
  have increasing : locations.Pairwise (· < ·) := by decide
  have centred (x : Float) (number : IsNumber x) (count : Nat) (two : 2 ≤ count) :=
    select_centred increasing (by decide) (by decide) number two
  have middle : (select 2.5 locations 5).result = .ok ⟨1, 5⟩ := by decide +kernel
  have edge : (select (1 / 0) locations 3).result = .ok ⟨3, 3⟩ := by decide +kernel
  have whole : (select 2.5 locations Size.largest).result = .ok ⟨0, 6⟩ := by decide +kernel
  obtain ⟨_, found, held, -⟩ := centred 2.5 (by decide) 5 (by decide)
  obtain rfl := Except.ok.inj (found.symm.trans middle)
  obtain ⟨_, found', held', -⟩ := centred (1 / 0) (by decide) 3 (by decide)
  obtain rfl := Except.ok.inj (found'.symm.trans edge)
  obtain ⟨_, found'', held'', -⟩ := centred 2.5 (by decide) Size.largest (by decide)
  obtain rfl := Except.ok.inj (found''.symm.trans whole)
  exact ⟨middle, held, edge, held', held''⟩

end Window

end Interpolant
