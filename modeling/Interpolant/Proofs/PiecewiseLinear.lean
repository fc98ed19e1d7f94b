import Interpolant.Proofs.Continuity

/-! # The piecewise linear interpolant

In exact arithmetic, chords between neighbouring samples join to one broken line, which goes on beyond
its ends. Interpolation from windows of two samples is on that line at every query. At a sample there
are two chords to take, and they agree.
-/

namespace Interpolant

universe u

variable {K : Type u} [Field K] [LinearOrder K]

/-- The value at `x` of the straight line through the points `(a, y)` and `(b, z)`. -/
def lineThrough (a y b z x : K) : K := y + (x - a) / (b - a) * (z - y)

omit [LinearOrder K] in
theorem lineThrough_left (a y b z : K) : lineThrough a y b z a = y := by
  rw [lineThrough, sub_self, zero_div, zero_mul, add_zero]

omit [LinearOrder K] in
/-- The line as a mean of the two values, each weighted by the distance to the other point. -/
theorem weighted_eq_lineThrough {a b : K} (apart : a ≠ b) (y z x : K) :
    (b - x) / (b - a) * y + (x - a) / (b - a) * z = lineThrough a y b z x := by
  have gap : b - a ≠ 0 := sub_ne_zero.mpr apart.symm
  rw [lineThrough]
  field_simp
  ring

/-- Between the two points the line is between their values. -/
theorem lineThrough_mem_uIcc [IsStrictOrderedRing K] {a b x : K} (apart : a < b) (left : a ≤ x)
    (right : x ≤ b) (y z : K) : lineThrough a y b z x ∈ Set.uIcc y z := by
  have gap : 0 < b - a := sub_pos.mpr apart
  have nonneg : 0 ≤ (x - a) / (b - a) := div_nonneg (sub_nonneg.mpr left) gap.le
  have le_one : (x - a) / (b - a) ≤ 1 := (div_le_one gap).mpr (sub_le_sub_right right a)
  rw [lineThrough, Set.mem_uIcc]
  rcases le_total y z with up | down
  · have low := mul_nonneg nonneg (sub_nonneg.mpr up)
    have high := mul_nonneg (sub_nonneg.mpr le_one) (sub_nonneg.mpr up)
    exact .inl ⟨by linarith, by linarith⟩
  · have low := mul_nonneg nonneg (sub_nonneg.mpr down)
    have high := mul_nonneg (sub_nonneg.mpr le_one) (sub_nonneg.mpr down)
    exact .inr ⟨by linarith, by linarith⟩

namespace Table

/-- The chord that belongs to `x` joins the samples `m` and `m + 1`, located at `a` and `b`: they are
neighbours of `x`, or `x` is beyond the end of the table that they are at. -/
structure HasChord (table : Table K) (m : ℕ) (a b x : K) : Prop where
  left : table.locations[m]? = some a
  right : table.locations[m + 1]? = some b
  place : a ≤ x ∧ x ≤ b ∨ x < a ∧ m = 0 ∨ b < x ∧ m + 2 = table.size

variable {table : Table K} {m : ℕ} {a b x : K}

omit [Field K] in
theorem HasChord.lt (chord : table.HasChord m a b x)
    (increasing : table.locations.Pairwise (· < ·)) : a < b :=
  related_of_pairwise increasing (Nat.lt_succ_self m) chord.left chord.right

theorem exists_hasChord (two : 2 ≤ table.size) (increasing : table.locations.Pairwise (· < ·))
    (x : K) : ∃ m a b, table.HasChord m a b x := by
  have gap := Window.inGap_below x table.locations
  generalize Window.below x table.locations = pivot at gap
  -- The samples at the two ends of the gap, or the nearest pair if one of them is missing.
  obtain ⟨m, place⟩ : ∃ m, m = min (pivot - 1) (table.size - 2) := ⟨_, rfl⟩
  have bound : pivot ≤ table.size := gap.bound
  obtain ⟨a, left⟩ : ∃ a, table.locations[m]? = some a :=
    ⟨_, List.getElem?_eq_getElem (by rw [← size]; omega)⟩
  obtain ⟨b, right⟩ : ∃ b, table.locations[m + 1]? = some b :=
    ⟨_, List.getElem?_eq_getElem (by rw [← size]; omega)⟩
  have low := gap.lt_iff increasing left
  have high := gap.lt_iff increasing right
  refine ⟨m, a, b, left, right, ?_⟩
  rcases lt_or_ge x a with before | above
  · have := mt low.mpr before.not_gt
    exact .inr (.inl ⟨before, by omega⟩)
  rcases lt_or_ge b x with behind | below
  · have := high.mp behind
    exact .inr (.inr ⟨behind, by omega⟩)
  · exact .inl ⟨above, below⟩

/-- Off the sample that it starts at, the chord of a query joins the samples of the selected window. -/
theorem HasChord.window_eq (chord : table.HasChord m a b x)
    (increasing : table.locations.Pairwise (· < ·)) (off : x ≠ a) (degree : ℕ) :
    Method.linear.windowOf degree table.size (Window.below x table.locations) = ⟨m, 2⟩ := by
  have gap := Window.inGap_below x table.locations
  have low := gap.lt_iff increasing chord.left
  have high := gap.lt_iff increasing chord.right
  have bound : Window.below x table.locations ≤ table.size := gap.bound
  have inside : m + 1 < table.size := (List.getElem?_eq_some_iff.mp chord.right).1
  have two : min (Method.linear.requiredSamples degree) table.size = 2 :=
    min_eq_left (show 2 ≤ table.size by omega)
  rw [Method.windowOf, two, Window.around, Window.mk.injEq]
  refine ⟨?_, rfl⟩
  rcases chord.place with ⟨above, below⟩ | ⟨before, first⟩ | ⟨behind, last⟩
  · have := low.mp (lt_of_le_of_ne above off.symm)
    have := mt high.mpr below.not_gt
    omega
  · have := mt low.mpr before.not_gt
    omega
  · have := high.mp behind
    omega

omit [Field K] [LinearOrder K] in
theorem slice_pair (left : table.locations[m]? = some a) (right : table.locations[m + 1]? = some b) :
    (table.slice m 2).locations = [a, b] := by
  have bound : (⟨m, 2⟩ : Window).stop ≤ table.size := (List.getElem?_eq_some_iff.mp right).1
  obtain ⟨a', b', ends⟩ := List.length_eq_two.mp (slice_size bound)
  have first : (table.slice m 2).locations[0]? = table.locations[m]? := slice_location (by decide)
  have second : (table.slice m 2).locations[1]? = table.locations[m + 1]? :=
    slice_location (by decide)
  rw [ends] at first second ⊢
  rw [Option.some.inj (first.trans left), Option.some.inj (second.trans right)]

/-- The weighted sum of the blocks of two samples is on the line through them. -/
theorem slice_value_getElem? (shape : table.Aligned) (left : table.locations[m]? = some a)
    (right : table.locations[m + 1]? = some b) (apart : a ≠ b) {k : ℕ} {y z : K}
    (first : (table.block m)[k]? = some y) (second : (table.block (m + 1))[k]? = some z) (x : K) :
    ((table.slice m 2).value x)[k]? = some (lineThrough a y b z x) := by
  have bound : (⟨m, 2⟩ : Window).stop ≤ table.size := (List.getElem?_eq_some_iff.mp right).1
  have part : (table.slice m 2).Aligned := (shape.part (le_refl 2) bound).aligned
  have start : ((table.slice m 2).block 0)[k]? = some y := by
    rw [slice_block (by decide)]
    exact first
  have stop : ((table.slice m 2).block 1)[k]? = some z := by
    rw [slice_block (by decide)]
    exact second
  rw [← Chord.blend_eq_value part (slice_pair left right), Chord.blend_getElem? start stop,
    weighted_eq_lineThrough apart]

end Table

namespace Method

/-- Interpolation from two samples is on the chord that belongs to the query. -/
theorem interpolateWindowed_on_chord {table : CheckedTable K} {m k : ℕ} {a b x y z : K}
    {out : List K} (increasing : table.locations.Pairwise (· < ·))
    (room : out.length = table.stride) (chord : table.HasChord m a b x)
    (first : (table.block m)[k]? = some y) (second : (table.block (m + 1))[k]? = some z)
    (degree : ℕ) :
    (linear.interpolateWindowed x table degree out).out[k]? = some (lineThrough a y b z x) := by
  have gap := Window.inGap_below x table.locations
  rw [(linear.interpolateWindowed_of_inGap degree increasing room gap).2]
  by_cases start : x = a
  · -- Where two chords meet, the selected window need not be the one of this chord.
    subst start
    have near := Window.inGap_of_beq increasing chord.left (beq_self_eq_true x)
    rw [near.below_eq increasing,
      linear.piece_value_at_sample degree increasing chord.left (.inl rfl), first,
      lineThrough_left]
  · rw [piece_eq_slice, chord.window_eq increasing start degree]
    exact Table.slice_value_getElem? table.aligned chord.left chord.right
      (chord.lt increasing).ne first second x

/-- Interpolation from windows of two samples is piecewise linear: it succeeds with the values at the
query of the chords between the two samples around it, or of the first or the last chord beyond the
ends of the table. Where two chords meet, either of them will do. Between two samples it does not
leave the range of their values; and it does not depend on a degree. -/
theorem interpolateWindowed_piecewise_linear [IsStrictOrderedRing K] (x : K) (table : Table K)
    (degree : ℕ) (out : List K) (shape : table.WellFormed)
    (increasing : table.locations.Pairwise (· < ·)) (room : out.length = table.stride) :
    (linear.interpolateWindowed x table degree out).result = .ok () ∧
      (linear.interpolateWindowed x table degree out).out.length = table.stride ∧
      (∃ m a b, table.HasChord m a b x) ∧
      (∀ m a b, table.HasChord m a b x → ∀ k < table.stride, ∃ y z,
        table.values[m * table.stride + k]? = some y ∧
          table.values[(m + 1) * table.stride + k]? = some z ∧
          (linear.interpolateWindowed x table degree out).out[k]? =
            some (lineThrough a y b z x) ∧
          (a ≤ x → x ≤ b → lineThrough a y b z x ∈ Set.uIcc y z)) ∧
      ∀ degree', linear.interpolateWindowed x table degree' out =
        linear.interpolateWindowed x table degree out := by
  obtain ⟨table, rfl⟩ := shape.exists_checked
  have gap := Window.inGap_below x table.locations
  obtain ⟨result, contents⟩ := linear.interpolateWindowed_of_inGap degree increasing room gap
  have length := Table.value_length
    (linear.piece table degree (Window.below x table.locations)).aligned x
  rw [← contents] at length
  refine ⟨result, length, Table.exists_hasChord table.two_le_size increasing x, ?_, fun _ => rfl⟩
  intro m a b chord k inside
  have next : m + 1 < table.size := (List.getElem?_eq_some_iff.mp chord.right).1
  obtain ⟨y, first, y_entry⟩ :=
    Table.exists_block_entry table.aligned (Nat.lt_of_succ_lt next) inside
  obtain ⟨z, second, z_entry⟩ := Table.exists_block_entry table.aligned next inside
  exact ⟨y, z, y_entry, z_entry,
    interpolateWindowed_on_chord increasing room chord first second degree,
    fun left right => lineThrough_mem_uIcc (chord.lt increasing) left right y z⟩

/-- Both chords at the sample in the middle give its value, and the last one goes on behind the table. -/
theorem interpolateWindowed_piecewise_linear_corner :
    let table : Table ℚ := ⟨[0, 1, 3], [2, 0, 5, 1, 1, 7], 2⟩
    table.HasChord 0 0 1 1 ∧ table.HasChord 1 1 3 1 ∧ table.HasChord 1 1 3 5 ∧
      (linear.interpolateWindowed 1 table 4 [8, 8]).out[0]? = some (lineThrough 0 2 1 5 1) ∧
      (linear.interpolateWindowed 1 table 4 [8, 8]).out[0]? = some (lineThrough 1 5 3 1 1) ∧
      (linear.interpolateWindowed 5 table 0 [8, 8]).out[1]? = some 13 := by
  intro table
  have shape : table.WellFormed := ⟨by decide, by decide, by decide, by decide⟩
  have increasing : table.locations.Pairwise (· < ·) := by decide
  have before : table.HasChord 0 0 1 1 := ⟨rfl, rfl, .inl (by norm_num)⟩
  have behind : table.HasChord 1 1 3 1 := ⟨rfl, rfl, .inl (by norm_num)⟩
  have beyond : table.HasChord 1 1 3 5 := ⟨rfl, rfl, .inr (.inr ⟨by norm_num, rfl⟩)⟩
  obtain ⟨-, -, -, corner, -⟩ :=
    interpolateWindowed_piecewise_linear 1 table 4 [8, 8] shape increasing rfl
  obtain ⟨-, -, -, outside, -⟩ :=
    interpolateWindowed_piecewise_linear 5 table 0 [8, 8] shape increasing rfl
  obtain ⟨_, _, ⟨⟩, ⟨⟩, left, -⟩ := corner 0 0 1 before 0 (by decide)
  obtain ⟨_, _, ⟨⟩, ⟨⟩, right, -⟩ := corner 1 1 3 behind 0 (by decide)
  obtain ⟨_, _, ⟨⟩, ⟨⟩, last, -⟩ := outside 1 1 3 beyond 1 (by decide)
  refine ⟨before, behind, beyond, left, right, last.trans ?_⟩
  norm_num [lineThrough]

end Method

end Interpolant
