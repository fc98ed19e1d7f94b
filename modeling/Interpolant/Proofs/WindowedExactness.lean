import Interpolant.Proofs.PolynomialExactness
import Interpolant.Proofs.WindowedAgreement

/-! # Exactness on windows

In exact arithmetic the chord through two samples is the polynomial of least degree through them, so
that both methods take the same weighted sum of the blocks in a window. If the samples of a table
come from polynomials of a degree less than the number of samples in a window, every window has
enough of them: the interpolation gives the values of the polynomials, wherever the query is, and
however the window was chosen.
-/

namespace Interpolant

open Polynomial

universe u

variable {K : Type u} [Field K] [LinearOrder K]

/-- The weighted sum of two blocks is the chord between them. -/
theorem Chord.blend_eq_value {table : Table K} {x₀ x₁ : K} (shape : table.Aligned)
    (ends : table.locations = [x₀, x₁]) (x : K) :
    blend ((x₁ - x) / (x₁ - x₀)) ((x - x₀) / (x₁ - x₀)) (table.block 0) (table.block 1) =
      table.value x := by
  have size : table.size = 2 := congrArg List.length ends
  have samples : table.samples = [((x₀, 0), table.block 0), ((x₁, 1), table.block 1)] := by
    rw [Table.samples, Table.blocks, size, ends]
    rfl
  have left : Basis.weight x x₀ (Basis.others table.locations 0) = (x₁ - x) / (x₁ - x₀) := by
    rw [ends]
    change 1 * (x - x₁) / (x₀ - x₁) = _
    rw [one_mul, ← neg_div_neg_eq, neg_sub, neg_sub]
  have right : Basis.weight x x₁ (Basis.others table.locations 1) = (x - x₀) / (x₁ - x₀) := by
    rw [ends]
    change 1 * (x - x₀) / (x₁ - x₀) = _
    rw [one_mul]
  refine List.ext_getElem? fun k => ?_
  rcases Nat.lt_or_ge k table.stride with inside | outside
  · obtain ⟨y₀, entry₀, -⟩ := Table.exists_block_entry shape (i := 0) (by omega) inside
    obtain ⟨y₁, entry₁, -⟩ := Table.exists_block_entry shape (i := 1) (by omega) inside
    have start : (List.replicate table.stride (0 : K))[k]? = some 0 :=
      List.getElem?_replicate_of_lt inside
    have sum := table.addSample_getElem? x x₁ 1
      (table.addSample_getElem? x x₀ 0 start entry₀) entry₁
    rw [left, right, zero_add] at sum
    rw [Table.value, samples, blend_getElem? entry₀ entry₁]
    exact sum.symm
  · rw [List.getElem?_eq_none ((Table.value_length shape x).trans_le outside),
      List.getElem?_eq_none ((blend_length shape ends _ _).trans_le outside)]

namespace Method

/-- On increasing locations both methods give the weighted sum of all blocks. -/
theorem interpolate_eq_value (method : Method) (table : CheckedTable K) {out : List K}
    (pair : method = .linear → table.size = 2) (increasing : table.locations.Pairwise (· < ·))
    (room : out.length = table.stride) (x : K) :
    method.interpolate x table out = .done (table.value x) := by
  cases method with
  | lagrange =>
    rw [interpolate, Lagrange.interpolate_checked]
    exact Table.evaluate_of_distinct room (Basis.coincidence?_eq_none_of_increasing increasing) x
  | linear =>
    obtain ⟨x₀, x₁, ends⟩ := List.length_eq_two.mp (pair rfl)
    have apart : x₀ < x₁ := List.rel_of_pairwise_cons (ends ▸ increasing) List.mem_cons_self
    have gap : ¬ (x₁ - x₀ == 0) = true := fun zero =>
      apart.ne' (sub_eq_zero.mp (beq_iff_eq.mp zero))
    rw [← Chord.blend_eq_value table.aligned ends, interpolate,
      Chord.interpolate_of_ends table.aligned room ends, if_neg gap]

/-- On a window of an increasing table both methods give the weighted sum of its blocks. -/
theorem interpolate_slice_eq_value {method : Method} {table : Table K} {degree : ℕ}
    {window : Window} {out : List K} (shape : table.Aligned)
    (increasing : table.locations.Pairwise (· < ·))
    (count : window.count = min (method.requiredSamples degree) table.size)
    (two : 2 ≤ window.count) (inside : window.stop ≤ table.size)
    (room : out.length = table.stride) (x : K) :
    method.interpolate x (table.slice window.first window.count) out =
      .done ((table.slice window.first window.count).value x) := by
  exact method.interpolate_eq_value (shape.part two inside)
    (slice_size_of_linear count two inside)
    (increasing.sublist (table.slice_locations_sublist _ _)) room x

/-- On increasing locations both methods give the weighted sum of the blocks in the window that is
selected. -/
theorem interpolateWindowed_eq_value {method : Method} {table : Table K} {x : K} {degree : ℕ}
    {window : Window} {out : List K} (shape : table.Aligned)
    (increasing : table.locations.Pairwise (· < ·))
    (selected : (Window.select x table.locations (method.requiredSamples degree)).result =
      .ok window) (room : out.length = table.stride) :
    (method.interpolateWindowed x table degree out).result = .ok () ∧
      (method.interpolateWindowed x table degree out).out =
        (table.slice window.first window.count).value x := by
  obtain ⟨count, two, inside⟩ := Window.bounds_of_select selected
  obtain ⟨result, contents⟩ := interpolateWindowed_eq_of_ok shape selected out
  rw [interpolate_slice_eq_value shape increasing count two inside room] at result contents
  exact ⟨result, contents⟩

/-- How many samples of a table an interpolation goes through. -/
def support : Method → ℕ → ℕ → ℕ
  | .lagrange, degree, size => min (max (degree + 1) 2) size
  | .linear, _, _ => 2

theorem support_eq_count {method : Method} {size : ℕ} (two : 2 ≤ size) (word : size ≤ Size.largest)
    (degree : ℕ) : method.support degree size = min (method.requiredSamples degree) size := by
  cases method with
  | lagrange =>
    simp only [support, requiredSamples, Lagrange.requiredSamples, Size.succ]
    omega
  | linear => exact (Nat.min_eq_left two).symm

end Method

omit [LinearOrder K] in
/-- A polynomial through the samples of a table passes through those of each of its parts. -/
theorem Table.PassesThrough.slice {table : Table K} {k : ℕ} {p : K[X]}
    (through : table.PassesThrough k p) (inside : k < table.stride) (first count : ℕ) :
    (table.slice first count).PassesThrough k p := by
  intro i a here
  have within : i < count := by
    have ⟨bound, _⟩ := List.getElem?_eq_some_iff.mp here
    exact lt_of_lt_of_le bound (List.length_take_le _ _)
  rw [Table.slice_location within] at here
  rw [← (table.slice first count).block_getElem? inside, Table.slice_block within,
    table.block_getElem? inside]
  exact through _ a here

/-- The values of polynomials at a query, one for each component. -/
noncomputable def evalAll (p : ℕ → K[X]) (stride : ℕ) (x : K) : List K :=
  (List.range stride).map fun k => (p k).eval x

/-- The weighted sum of the blocks of enough samples is the value of the polynomials. -/
theorem Table.value_eq_evalAll {table : Table K} (shape : table.Aligned)
    (distinct : table.locations.Nodup) {p : ℕ → K[X]}
    (small : ∀ k < table.stride, (p k).degree < table.size)
    (through : ∀ k < table.stride, table.PassesThrough k (p k)) (x : K) :
    table.value x = evalAll p table.stride x := by
  refine List.ext_getElem? fun k => ?_
  rcases Nat.lt_or_ge k table.stride with inside | outside
  · rw [Table.value_of_passesThrough x distinct inside (small k inside) (through k inside), evalAll,
      List.getElem?_map, List.getElem?_range inside, Option.map_some]
  · rw [List.getElem?_eq_none ((Table.value_length shape x).trans_le outside), evalAll,
      List.getElem?_eq_none]
    rw [List.length_map, List.length_range]
    exact outside

namespace Method

/-- The window that is selected for a query has enough samples to settle the polynomials. -/
private theorem slice_value_eq_evalAll {method : Method} {x : K} {table : CheckedTable K}
    {degree : ℕ} {window : Window} {p : ℕ → K[X]} (increasing : table.locations.Pairwise (· < ·))
    (selected : (Window.select x table.locations (method.requiredSamples degree)).result =
      .ok window)
    (small : ∀ k < table.stride, (p k).degree < method.support degree table.size)
    (through : ∀ k < table.stride, table.PassesThrough k (p k)) :
    (table.slice window.first window.count).value x = evalAll p table.stride x := by
  obtain ⟨count, two, inside⟩ := Window.bounds_of_select selected
  have part := table.slice_locations_sublist window.first window.count
  have aligned : (table.slice window.first window.count).Aligned :=
    (table.aligned.part two inside).aligned
  refine Table.value_eq_evalAll aligned ((increasing.sublist part).imp ne_of_lt)
    (fun k component => ?_) (fun k component => (through k component).slice component _ _) x
  rw [Table.slice_size inside, count]
  have enough := small k component
  rw [support_eq_count table.two_le_size table.aligned.size_le_largest] at enough
  exact enough

/-- If every component of the samples comes from a polynomial of a degree less than the number of
samples in a window, the interpolation succeeds with the values of the polynomials at the query,
just as the interpolation through the whole table does. -/
theorem interpolateWindowed_polynomial (method : Method) (x : K) (table : Table K) (degree : ℕ)
    (out : List K) (p : ℕ → K[X]) (shape : table.WellFormed)
    (increasing : table.locations.Pairwise (· < ·)) (room : out.length = table.stride)
    (small : ∀ k < table.stride, (p k).degree < method.support degree table.size)
    (through : ∀ k < table.stride, table.PassesThrough k (p k)) :
    ((method.interpolateWindowed x table degree out).result = .ok () ∧
        (method.interpolateWindowed x table degree out).out = evalAll p table.stride x) ∧
      (method = .lagrange → (table.evaluateWindowed x degree out).result = .ok () ∧
        (table.evaluateWindowed x degree out).out = evalAll p table.stride x) ∧
      (Lagrange.interpolate x table out).result = .ok () ∧
        (Lagrange.interpolate x table out).out = evalAll p table.stride x := by
  obtain ⟨table, rfl⟩ := shape.exists_checked
  have windowed (method : Method)
      (small : ∀ k < table.stride, (p k).degree < method.support degree table.size) :
      (method.interpolateWindowed x table degree out).result = .ok () ∧
        (method.interpolateWindowed x table degree out).out = evalAll p table.stride x := by
    have selected := Window.select_eq_ok_iff (x := x).mpr ⟨method.two_le_requiredSamples degree,
      table.two_le_size, Window.ascending_of_increasing increasing, rfl⟩
    obtain ⟨result, contents⟩ :=
      interpolateWindowed_eq_value table.aligned increasing selected room
    exact ⟨result, contents.trans (slice_value_eq_evalAll increasing selected small through)⟩
  refine ⟨windowed method small, ?_, ?_⟩
  · rintro rfl
    rw [Table.evaluateWindowed_eq_interpolateWindowed table.aligned]
    exact windowed .lagrange small
  · have whole : Lagrange.interpolate x table out = .done (table.value x) :=
      Method.lagrange.interpolate_eq_value table nofun increasing room x
    rw [whole]
    refine ⟨rfl, Table.value_eq_evalAll table.aligned (increasing.imp ne_of_lt) ?_ through x⟩
    intro k component
    refine lt_of_lt_of_le (small k component) (Nat.cast_le.mpr ?_)
    rw [support_eq_count table.two_le_size table.aligned.size_le_largest]
    exact min_le_right _ _

/-- Four samples of two parabolas give them back beyond the last sample, from three of the samples
as from all four. -/
theorem interpolateWindowed_polynomial_parabolas :
    let table : Table ℚ := ⟨[0, 1, 3, 4], [0, 2, 1, 3, 9, 11, 16, 18], 2⟩
    (lagrange.interpolateWindowed 6 table 2 [0, 0]).out = [36, 38] ∧
      (table.evaluateWindowed 6 2 [0, 0]).out = [36, 38] ∧
      (Lagrange.interpolate 6 table [0, 0]).out = [36, 38] := by
  intro table
  have square : table.PassesThrough 0 (X ^ 2) := by
    rintro (_ | _ | _ | _ | i) a here <;> cases here <;> norm_num [table]
  have shifted : table.PassesThrough 1 (X ^ 2 + C 2) := by
    rintro (_ | _ | _ | _ | i) a here <;> cases here <;> norm_num [table]
  let p : ℕ → ℚ[X] := fun k => if k = 0 then X ^ 2 else X ^ 2 + C 2
  have small : ∀ k < 2, (p k).degree < lagrange.support 2 4 := by
    rintro (_ | _ | k) inside
    · exact (degree_X_pow_le 2).trans_lt (Nat.cast_lt.mpr (by decide))
    · exact (degree_X_pow_add_C (by decide) _).trans_lt (Nat.cast_lt.mpr (by decide))
    · omega
  have through : ∀ k < 2, table.PassesThrough k (p k) := by
    rintro (_ | _ | k) inside
    · exact square
    · exact shifted
    · omega
  obtain ⟨⟨-, windowed⟩, checked, -, whole⟩ := interpolateWindowed_polynomial .lagrange 6 table 2
    [0, 0] p ⟨by decide, by decide, by decide, by decide⟩ (by decide) rfl small through
  have values : evalAll p 2 6 = [36, 38] := by
    change [(X ^ 2 : ℚ[X]).eval 6, (X ^ 2 + C 2 : ℚ[X]).eval 6] = _
    norm_num
  exact ⟨windowed.trans values, (checked rfl).2.trans values, whole.trans values⟩

end Method

end Interpolant
