import Interpolant.Proofs.CentredWindow
import Interpolant.Proofs.WindowedAgreement
import Mathlib.Tactic.Linarith

/-! # The samples nearest to a query

A window holds the samples nearest to a query if neither the sample before it nor the one behind it is
nearer than the sample at its other end. In an evenly spaced table this depends on sums of two
positions only. A selected window of an even number of samples is always of this kind, and one of an
odd number is unless the query is nearer to the location below it than to the next one: the window
has its sample too many behind the query then, and the same window one sample further down has the
nearest ones.
-/

namespace Interpolant

universe u

variable {K : Type u} [Field K] [LinearOrder K]

/-- The location of every sample is as many steps from the start as there are samples before it. -/
def EvenlySpaced (start step : K) (locations : List K) : Prop :=
  ∀ (i : ℕ) a, locations[i]? = some a → a = start + i * step

section Distance

variable [IsStrictOrderedRing K] {a b x : K}

/-- Of two places, the upper one is not further away exactly from their middle on. -/
theorem abs_sub_upper_le_iff (order : a < b) : |x - b| ≤ |x - a| ↔ a + b ≤ 2 * x := by
  constructor
  · intro near
    by_contra far
    have less : |x - a| < b - x := abs_lt.mpr ⟨by linarith, by linarith⟩
    linarith [neg_le_abs (x - b)]
  · intro middle
    have distance := le_abs_self (x - a)
    exact abs_le.mpr ⟨by linarith, by linarith⟩

/-- Of two places, the lower one is not further away exactly up to their middle. -/
theorem abs_sub_lower_le_iff (order : a < b) : |x - a| ≤ |x - b| ↔ 2 * x ≤ a + b := by
  have mirrored := abs_sub_upper_le_iff (x := -x) (neg_lt_neg order)
  rw [neg_sub_neg, neg_sub_neg, abs_sub_comm a, abs_sub_comm b] at mirrored
  rw [mirrored, ← neg_le_neg_iff, neg_add, mul_neg, neg_neg, neg_neg, neg_neg, add_comm]

end Distance

namespace Window

/-- No sample outside the window is nearer to `x` than a sample in it. -/
def Nearest (locations : List K) (x : K) (window : Window) : Prop :=
  ∀ i j a b, window.Contains i → ¬ window.Contains j → locations[i]? = some a →
    locations[j]? = some b → |x - a| ≤ |x - b|

/-- An odd number of samples is asked for, there are more than half of that many on either side of `x`,
and `x` is nearer to the location below it than to the next one. -/
structure Skewed (locations : List K) (x : K) (count : ℕ) : Prop where
  odd : count % 2 = 1
  before : count / 2 < locations.countP (· < x)
  behind : locations.countP (· < x) + count / 2 < locations.length
  nearer_below : ∃ i a b, locations[i]? = some a ∧ locations[i + 1]? = some b ∧ a < x ∧ x ≤ b ∧
    x - a < b - x

omit [Field K] in
theorem le_of_increasing {locations : List K} (increasing : locations.Pairwise (· < ·)) {i j : ℕ}
    {a b : K} (left : locations[i]? = some a) (right : locations[j]? = some b) (order : i ≤ j) :
    a ≤ b := by
  rcases Nat.lt_or_eq_of_le order with before | rfl
  · exact (related_of_pairwise increasing before left right).le
  · exact (Option.some.inj (left.symm.trans right)).le

variable [IsStrictOrderedRing K] {locations : List K} {start step x : K} {window : Window}

/-- Only the samples next to a window and those at its ends matter: of each such pair, the one in the
window must not be further away. -/
theorem nearest_iff (increasing : locations.Pairwise (· < ·)) (occupied : 0 < window.count)
    (inside : window.stop ≤ locations.length) :
    window.Nearest locations x ↔
      (∀ k a b, k + 1 = window.first → locations[k]? = some a →
        locations[window.stop - 1]? = some b → a + b ≤ 2 * x) ∧
      ∀ a b, locations[window.first]? = some a → locations[window.stop]? = some b →
        2 * x ≤ a + b := by
  have stop_eq : window.stop = window.first + window.count := rfl
  constructor
  · intro nearest
    constructor
    · intro k a b place before last
      have apart := related_of_pairwise increasing (by omega) before last
      refine (abs_sub_upper_le_iff apart).mp
        (nearest (window.stop - 1) k b a ?_ (fun held => ?_) last before)
      · constructor <;> omega
      · have := held.1
        omega
    · intro a b first behind
      have apart := related_of_pairwise increasing (by omega) first behind
      refine (abs_sub_lower_le_iff apart).mp
        (nearest window.first window.stop a b ?_ (fun held => ?_) first behind)
      · constructor <;> omega
      · have := held.2
        omega
  · rintro ⟨lower, upper⟩ i j a b ⟨first, stop⟩ outside here there
    have low := List.getElem?_eq_getElem (show window.first < locations.length by omega)
    have high := List.getElem?_eq_getElem (show window.stop - 1 < locations.length by omega)
    rcases Nat.lt_or_ge j window.first with below | above
    · have next := List.getElem?_eq_getElem (show window.first - 1 < locations.length by omega)
      have edge := lower (window.first - 1) _ _ (by omega) next high
      have further := le_of_increasing increasing there next (by omega)
      have highest := le_of_increasing increasing here high (by omega)
      have apart := related_of_pairwise increasing (by omega) there here
      exact (abs_sub_upper_le_iff apart).mpr (by linarith)
    · have behind : window.stop ≤ j := Nat.le_of_not_lt fun less => outside ⟨above, less⟩
      have bound : j < locations.length := (List.getElem?_eq_some_iff.mp there).1
      have next := List.getElem?_eq_getElem (show window.stop < locations.length by omega)
      have edge := upper _ _ low next
      have further := le_of_increasing increasing next there behind
      have lowest := le_of_increasing increasing low here first
      have apart := related_of_pairwise increasing (by omega) here there
      exact (abs_sub_lower_le_iff apart).mpr (by linarith)

end Window

namespace EvenlySpaced

variable [IsStrictOrderedRing K] {locations : List K} {start step : K}

theorem increasing (spaced : EvenlySpaced start step locations) (positive : 0 < step) :
    locations.Pairwise (· < ·) := by
  refine List.pairwise_iff_getElem.mpr fun i j left right before => ?_
  rw [spaced i _ (List.getElem?_eq_getElem left), spaced j _ (List.getElem?_eq_getElem right)]
  have order : (i : K) < j := Nat.cast_lt.mpr before
  linarith [mul_lt_mul_of_pos_right order positive]

/-- Two samples lie around a greater middle if the sum of their positions is greater. -/
theorem add_le_add (spaced : EvenlySpaced start step locations) (positive : 0 < step)
    {i j k l : ℕ} {a b c d : K} (first : locations[i]? = some a) (second : locations[j]? = some b)
    (third : locations[k]? = some c) (fourth : locations[l]? = some d) (sum : i + j ≤ k + l) :
    a + b ≤ c + d := by
  have order : (i + j : K) ≤ k + l := by exact_mod_cast sum
  have scaled := mul_le_mul_of_nonneg_right order positive.le
  rw [spaced i a first, spaced j b second, spaced k c third, spaced l d fourth]
  linarith

end EvenlySpaced

namespace Window

variable [IsStrictOrderedRing K] {locations : List K} {start step x : K} {count : ℕ}

omit [IsStrictOrderedRing K] in
/-- The samples at both ends of the gap around a query that has a sample below it and one behind it. -/
theorem exists_gap (increasing : locations.Pairwise (· < ·)) {k : ℕ}
    (place : k + 1 = below x locations) (inside : k + 1 < locations.length) :
    ∃ a b, locations[k]? = some a ∧ locations[k + 1]? = some b ∧ a < x ∧ x ≤ b := by
  have left := List.getElem?_eq_getElem (show k < locations.length by omega)
  have right := List.getElem?_eq_getElem inside
  refine ⟨_, _, left, right, (lt_iff_lt_below increasing left).mpr (by omega), ?_⟩
  exact not_lt.mp fun less => absurd ((lt_iff_lt_below increasing right).mp less) (by omega)

/-- In an evenly spaced table the window around a query is the nearest one unless it is skewed. -/
theorem nearest_of_not_skewed (spaced : EvenlySpaced start step locations) (positive : 0 < step)
    (two : 2 ≤ count) (fits : count ≤ locations.length) (level : ¬ Skewed locations x count) :
    (around (below x locations) count locations.length).Nearest locations x := by
  have increasing := spaced.increasing positive
  generalize place : around (below x locations) count locations.length = window
  have inside : window.stop ≤ locations.length := place ▸ stop_around_le fits
  obtain ⟨first_eq, count_eq⟩ := eq_around_iff.mp place.symm
  have stop_eq : window.stop = window.first + window.count := rfl
  have bound := below_le_length x locations
  refine (nearest_iff increasing (by omega) inside).mpr ⟨?_, ?_⟩
  · intro k a b before first last
    obtain ⟨m, pivot⟩ : ∃ m, m + 1 = below x locations := ⟨below x locations - 1, by omega⟩
    have lower := List.getElem?_eq_getElem (show m < locations.length by omega)
    have low := (lt_iff_lt_below increasing lower).mpr (by omega : m < below x locations)
    rcases Nat.lt_or_ge (m + m) (k + (window.stop - 1)) with beyond | within
    · -- The window has one sample more behind the query than below it, and room further down.
      obtain ⟨c, d, here, next, less, up⟩ := exists_gap increasing pivot (by omega)
      have sum := spaced.add_le_add positive first last here next (by omega)
      have middle : ¬ x - c < d - x := fun nearer => level
        ⟨by omega, by rw [← below_eq_countP increasing]; omega,
          by rw [← below_eq_countP increasing]; omega, m, c, d, here, next, less, up, nearer⟩
      linarith
    · have sum := spaced.add_le_add positive first last lower lower within
      linarith
  · intro a b first behind
    have stop : window.stop < locations.length := (List.getElem?_eq_some_iff.mp behind).1
    have upper := List.getElem?_eq_getElem (show below x locations < locations.length by omega)
    have high := not_lt.mp ((inGap_below x locations).upTo _ upper)
    have sum := spaced.add_le_add positive upper upper first behind (by omega)
    linarith

/-- A skewed window has the sample before it nearer to the query than its last one. With that sample
in place of the last one it is the nearest window. -/
theorem nearest_of_skewed (spaced : EvenlySpaced start step locations) (positive : 0 < step)
    (fits : count ≤ locations.length) (skewed : Skewed locations x count) :
    ¬ (around (below x locations) count locations.length).Nearest locations x ∧
      (⟨(around (below x locations) count locations.length).first - 1, count⟩ : Window).Nearest
        locations x := by
  have increasing := spaced.increasing positive
  obtain ⟨odd, before, behind, m, c, d, here, next, less, up, nearer⟩ := skewed
  rw [← below_eq_countP increasing] at before behind
  have pivot : below x locations = m + 1 := by
    have low := (lt_iff_lt_below increasing here).mp less
    have high := mt (lt_iff_lt_below increasing next).mpr (not_lt.mpr up)
    omega
  generalize place : around (below x locations) count locations.length = window
  have inside : window.stop ≤ locations.length := place ▸ stop_around_le fits
  obtain ⟨first_eq, count_eq⟩ := eq_around_iff.mp place.symm
  have stop_eq : window.stop = window.first + window.count := rfl
  constructor
  · intro nearest
    have before := List.getElem?_eq_getElem (show window.first - 1 < locations.length by omega)
    have last := List.getElem?_eq_getElem (show window.stop - 1 < locations.length by omega)
    have edge := ((nearest_iff increasing (by omega) inside).mp nearest).1 _ _ _
      (by omega : window.first - 1 + 1 = window.first) before last
    have sum := spaced.add_le_add positive here next before last (by omega)
    linarith
  · have stop_eq' : (⟨window.first - 1, count⟩ : Window).stop = window.first - 1 + count := rfl
    refine (nearest_iff increasing (by dsimp only; omega) (by omega)).mpr ⟨?_, ?_⟩
    · intro k a b before first last
      dsimp only at before
      have sum := spaced.add_le_add positive first last here here (by omega)
      linarith
    · intro a b first behind
      dsimp only at first
      have sum := spaced.add_le_add positive here next first behind (by omega)
      linarith

/-- The window has the samples nearest to `x` unless it is skewed. If it is, the window that is one
sample further down has them. -/
structure NearestUnlessSkewed (locations : List K) (x : K) (window : Window) : Prop where
  nearest_iff : window.Nearest locations x ↔ ¬ Skewed locations x window.count
  shifted : Skewed locations x window.count →
    (⟨window.first - 1, window.count⟩ : Window).Nearest locations x

theorem nearestUnlessSkewed_around (spaced : EvenlySpaced start step locations)
    (positive : 0 < step) (two : 2 ≤ count) (fits : count ≤ locations.length) :
    (around (below x locations) count locations.length).NearestUnlessSkewed locations x where
  nearest_iff := ⟨fun nearest skewed => (nearest_of_skewed spaced positive fits skewed).1 nearest,
    nearest_of_not_skewed spaced positive two fits⟩
  shifted skewed := (nearest_of_skewed spaced positive fits skewed).2

/-- The selection of a window, however many samples are asked for. -/
theorem select_nearest (spaced : EvenlySpaced start step locations) (positive : 0 < step)
    (size : 2 ≤ locations.length) (two : 2 ≤ count) (x : K) :
    ∃ window, (select x locations count).result = .ok window ∧
      window.count = min count locations.length ∧ window.NearestUnlessSkewed locations x := by
  have selected := (inGap_below x locations).select_eq (spaced.increasing positive) size two
  exact ⟨_, selected, rfl, nearestUnlessSkewed_around spaced positive (le_min two size)
    (min_le_right _ _)⟩

end Window

/-- A windowed interpolation is one on the samples of the window, as many as the method needs for
the degree as far as there are that many. -/
structure Method.UsesOnly (method : Method) (x : K) (table : Table K) (degree : ℕ)
    (window : Window) : Prop where
  selected : (Window.select x table.locations (method.requiredSamples degree)).result = .ok window
  count_eq : window.count = min (method.requiredSamples degree) table.size
  windowed : ∀ out,
    (method.interpolateWindowed x table degree out).result =
        (method.interpolate x (table.slice window.first window.count) out).result ∧
      (method.interpolateWindowed x table degree out).out =
        (method.interpolate x (table.slice window.first window.count) out).out
  checked : method = .lagrange → ∀ out,
    table.evaluateWindowed x degree out = method.interpolateWindowed x table degree out

namespace Table

variable [IsStrictOrderedRing K]

/-- In an evenly spaced table, the window of an even number of samples has the samples nearest to the
query, and so has one of an odd number unless it is skewed: then it has the sample at its far end in
place of a nearer one before it. A windowed interpolation uses the samples in this window and no
others. -/
theorem windows_nearest (table : Table K) (x : K) {start step : K} (size : 2 ≤ table.size)
    (spaced : EvenlySpaced start step table.locations) (positive : 0 < step) :
    (∀ count, 2 ≤ count → count ≤ table.size →
      ∃ window, (Window.select x table.locations count).result = .ok window ∧
        window.count = count ∧ window.NearestUnlessSkewed table.locations x) ∧
      (table.Aligned → ∀ (method : Method) degree, ∃ window, method.UsesOnly x table degree window ∧
        window.NearestUnlessSkewed table.locations x) := by
  constructor
  · intro count two fits
    obtain ⟨window, selected, count_eq, nearest⟩ :=
      Window.select_nearest spaced positive size two x
    exact ⟨window, selected, count_eq.trans (min_eq_left fits), nearest⟩
  · intro shape method degree
    obtain ⟨window, selected, count_eq, nearest⟩ :=
      Window.select_nearest spaced positive size (method.two_le_requiredSamples degree) x
    refine ⟨window, ⟨selected, count_eq, ?_, ?_⟩, nearest⟩
    · exact Method.interpolateWindowed_eq_of_ok shape selected
    · rintro rfl out
      exact evaluateWindowed_eq_interpolateWindowed shape x degree out

/-- Three samples around a query in the lower half of a gap are skewed: the three nearest ones are one
position further down. The four samples that a cubic takes are the nearest ones. -/
theorem windows_nearest_lower_half :
    let table : Table ℚ := ⟨[0, 1, 2, 3, 4, 5], [0, 1, 4, 9, 16, 25], 1⟩
    (Window.select (13 / 4) table.locations 3).result = .ok ⟨3, 3⟩ ∧
      ¬ (⟨3, 3⟩ : Window).Nearest table.locations (13 / 4) ∧
      (⟨2, 3⟩ : Window).Nearest table.locations (13 / 4) ∧
      (⟨2, 4⟩ : Window).Nearest table.locations (13 / 4) ∧
      Method.lagrange.UsesOnly (13 / 4) table 3 ⟨2, 4⟩ := by
  intro table
  have spaced : EvenlySpaced 0 1 table.locations := by
    rintro (_ | _ | _ | _ | _ | _ | i) a here <;> cases here <;> norm_num [table]
  have three : (Window.select (13 / 4) table.locations 3).result = .ok ⟨3, 3⟩ := by decide +kernel
  have four : (Window.select (13 / 4) table.locations (Method.lagrange.requiredSamples 3)).result =
    .ok ⟨2, 4⟩ := by decide +kernel
  have skewed : Window.Skewed table.locations (13 / 4) 3 :=
    ⟨by decide, by decide +kernel, by decide +kernel, 3, 3, 4, rfl, rfl, by norm_num, by norm_num,
      by norm_num⟩
  obtain ⟨counts, degrees⟩ := windows_nearest table (13 / 4) (by decide) spaced one_pos
  obtain ⟨_, selected, -, odd⟩ := counts 3 (by decide) (by decide)
  obtain rfl := Except.ok.inj (selected.symm.trans three)
  obtain ⟨_, uses, even⟩ := degrees (by decide) .lagrange 3
  obtain rfl := Except.ok.inj (uses.selected.symm.trans four)
  have level : ¬ Window.Skewed table.locations (13 / 4) 4 := fun skewed => nomatch skewed.odd
  exact ⟨three, fun nearest => odd.nearest_iff.mp nearest skewed, odd.shifted skewed,
    even.nearest_iff.mpr level, uses⟩

end Table

end Interpolant
