import Interpolant.Nodes
import Interpolant.Proofs.RoundedOrder

/-! # The ends of evenly spaced nodes

In binary floating point the step between evenly spaced nodes is rounded, and every node is computed
from the start on, the last one too. The nodes come in order and the first one is at the start, but
the last one may lie on either side of the end. It is off by a few rounding errors at most, and not
at all where the nodes lie on a grid of the format or are close together compared to where they end.
-/

namespace Interpolant.Nodes

open OrderedScalar BinaryFloat
open Binary (roundoff roundoff_pos roundoff_le leastUnit leastUnit_pos mul_leastUnit_nonneg
  minExponent_nonpos)

variable {α : Type} [Scalar α] [BinaryFloat α]

/-- Two finite ends in increasing order, a finite difference of them, and at least two nodes. -/
structure Span (start stop : α) (n : Nat) : Prop where
  start_finite : IsFinite start
  stop_finite : IsFinite stop
  length_finite : IsFinite (stop - start)
  start_lt_stop : start < stop
  two_le : 2 ≤ n
  size : n ≤ Size.largest

/-- The step that takes `n` nodes from `start` to `stop`, as it is rounded. -/
def step (start stop : α) (n : Nat) : α :=
  (stop - start) / Scalar.ofSize (max n 2 - 1)

/-- The way from the start to the node at position `i`. -/
def way (start stop : α) (n i : Nat) : α :=
  Scalar.ofSize i * step start stop n

/-- How far the way to the last node may be off the distance between the ends. -/
def drift (start stop : α) (n : Nat) : ℚ :=
  4 * roundoff (format α) * (value stop - value start) + n * leastUnit (format α)

/-- How far the last node may be off the end. -/
def endError (start stop : α) (n : Nat) : ℚ :=
  roundoff (format α) * (|value stop| + 5 * (value stop - value start)) +
    2 * n * leastUnit (format α)

/-- The nodes are at whole numbers of units `2 ^ e`, from `first` on every `gap` of them, and
neither the ends nor their difference have more units than a mantissa counts. -/
structure OnGrid (start stop : α) (n : Nat) (e first gap : ℤ) : Prop where
  minExponent_le : (format α).minExponent ≤ e
  start_eq : value start = first * 2 ^ e
  stop_eq : value stop = (first + (n - 1) * gap) * 2 ^ e
  start_lt : |first| < 2 ^ (format α).mantissaBits
  stop_lt : |first + (n - 1) * gap| < 2 ^ (format α).mantissaBits
  length_lt : (n - 1) * gap < 2 ^ (format α).mantissaBits

omit [BinaryFloat α] in
theorem evenlySpaced_getElem? (start stop : α) {n i : Nat} (inside : i < n) :
    (evenlySpaced start stop n)[i]? = some (start + way start stop n i) := by
  simp only [evenlySpaced, List.getElem?_map, List.getElem?_range inside, Option.map_some]
  rfl

omit [BinaryFloat α] in
theorem mem_evenlySpaced_iff {start stop node : α} {n : Nat} :
    node ∈ evenlySpaced start stop n ↔ ∃ i < n, start + way start stop n i = node := by
  simp only [evenlySpaced, List.mem_map, List.mem_range]
  rfl

section

variable {u η w d c m p : ℚ}

/-- Rounding errors `u` and `η` in a difference `d` of `w`, a size `c` of `m` and the quotient `q`
of the two leave the product `c * q` near `w`. -/
private theorem product_near {q : ℚ} (nonneg : 0 ≤ u) (small : u ≤ 1 / 4) (unit : 0 ≤ η)
    (extent : 0 ≤ w) (steps : 0 ≤ m) (count : 0 < c) (length : |d - w| ≤ u * w)
    (size : |c - m| ≤ u * m) (quotient : |q - d / c| ≤ u * (d / c) + η / 2) :
    |c * q - w| ≤ 9 / 4 * (u * w) + 5 / 8 * (m * η) := by
  have scaled : |c * q - d| ≤ u * d + c * (η / 2) := by
    have product : c * q - d = c * (q - d / c) := by
      rw [mul_sub, mul_div_cancel₀ _ count.ne']
    rw [product, abs_mul, abs_of_pos count]
    refine (mul_le_mul_of_nonneg_left quotient count.le).trans_eq ?_
    field_simp
  have longer : d ≤ 5 / 4 * w := by
    linarith [(abs_sub_le_iff.mp length).1, mul_le_mul_of_nonneg_right small extent]
  have larger : c ≤ 5 / 4 * m := by
    linarith [(abs_sub_le_iff.mp size).1, mul_le_mul_of_nonneg_right small steps]
  have path := abs_sub_le (c * q) d w
  linarith [mul_le_mul_of_nonneg_left longer nonneg, mul_le_mul_of_nonneg_right larger unit]

/-- One more rounding, of the product. -/
private theorem rounded_product_near (nonneg : 0 ≤ u) (small : u ≤ 1 / 4) (unit : 0 ≤ η)
    (extent : 0 ≤ w) (steps : 0 ≤ m) (near : |p - w| ≤ 9 / 4 * (u * w) + 5 / 8 * (m * η))
    (rounded : |d - p| ≤ u * p + η / 2) : |d - w| ≤ 4 * u * w + (m + 1) * η := by
  have longer := mul_le_mul_of_nonneg_left (sub_le_iff_le_add.mp (abs_sub_le_iff.mp near).1) nonneg
  have path := abs_sub_le d p w
  linarith [mul_le_mul_of_nonneg_right small (mul_nonneg nonneg extent),
    mul_le_mul_of_nonneg_right small (mul_nonneg steps unit), mul_nonneg nonneg extent,
    mul_nonneg steps unit]

end

namespace Span

variable {start stop : α} {n : Nat}

theorem last_eq (span : Span start stop n) : max n 2 - 1 = n - 1 := by
  rw [max_eq_left span.two_le]

theorem pos (span : Span start stop n) : 0 < n :=
  two_pos.trans_le span.two_le

theorem last_lt (span : Span start stop n) : n - 1 < n :=
  Nat.sub_one_lt_of_lt span.pos

theorem last_size (span : Span start stop n) : n - 1 ≤ Size.largest :=
  (Nat.sub_le n 1).trans span.size

theorem extent_pos (span : Span start stop n) : 0 < value stop - value start :=
  sub_pos.mpr ((lt_iff_value span.start_finite span.stop_finite).mp span.start_lt_stop)

/-- The difference of the ends is rounded, but never below the least unit. -/
theorem length_error (span : Span start stop n) :
    |value (stop - start) - (value stop - value start)| ≤
      roundoff (format α) * (value stop - value start) := by
  have error := value_sub_error span.stop_finite span.start_finite span.length_finite
  rwa [abs_of_pos span.extent_pos] at error

theorem length_pos (span : Span start stop n) : 0 < value (stop - start) := by
  have near := (abs_sub_le_iff.mp span.length_error).2
  have part := mul_le_mul_of_nonneg_right (roundoff_le (format α)) span.extent_pos.le
  linarith [span.extent_pos]

variable [BinarySizes α]

theorem one_le_count (span : Span start stop n) :
    1 ≤ value (Scalar.ofSize (n - 1) : α) :=
  one_le_value_ofSize (Nat.le_sub_one_of_lt span.two_le) span.last_size

theorem roundsTo_step (span : Span start stop n) :
    RoundsTo (value (stop - start) / value (Scalar.ofSize (n - 1) : α)) (step start stop n) := by
  rw [step, span.last_eq]
  exact roundsTo_div span.length_finite (isFinite_ofSize span.last_size)
    (zero_lt_one.trans_le span.one_le_count).ne'

theorem step_finite (span : Span start stop n) : IsFinite (step start stop n) := by
  refine span.roundsTo_step.isFinite_of_abs_le span.length_finite ?_
  rw [abs_div]
  exact div_le_self (abs_nonneg _) (span.one_le_count.trans (le_abs_self _))

theorem step_nonneg (span : Span start stop n) : 0 ≤ value (step start stop n) := by
  have rounds := span.roundsTo_step.rounds span.step_finite
  have positive := div_pos span.length_pos (zero_lt_one.trans_le span.one_le_count)
  exact rounds.ge_of_ge (v := .zero .positive) trivial positive.le

theorem roundsTo_way (span : Span start stop n) {i : Nat} (inside : i < n) :
    RoundsTo (value (Scalar.ofSize i : α) * value (step start stop n)) (way start stop n i) :=
  roundsTo_mul (isFinite_ofSize (inside.le.trans span.size)) span.step_finite

theorem way_le_way (span : Span start stop n) {i j : Nat} (le : i ≤ j) (inside : j < n) :
    way start stop n i ≤ way start stop n j := by
  have size := inside.le.trans span.size
  exact mul_le_mul_right (isFinite_ofSize (le.trans size)) (isFinite_ofSize size) span.step_finite
    span.step_nonneg (ofSize_le_ofSize le size)

theorem node_le_node (span : Span start stop n) {i j : Nat} (le : i ≤ j) (inside : j < n) :
    start + way start stop n i ≤ start + way start stop n j :=
  add_le_add_left span.start_finite (span.way_le_way le inside)

theorem ordered (span : Span start stop n) :
    (evenlySpaced start stop n).Pairwise (· ≤ ·) := by
  refine List.pairwise_iff_getElem.mpr fun i j left right before => ?_
  rw [evenlySpaced_length] at right
  simp only [evenlySpaced, List.getElem_map, List.getElem_range]
  exact span.node_le_node before.le right

theorem first_beq (span : Span start stop n) : (start + way start stop n 0 == start) = true := by
  have zero : ((Scalar.ofSize 0 : α) == 0) = true :=
    (beq_iff_value (isFinite_ofSize (Nat.zero_le _)) RoundedScalar.isFinite_zero).mpr
      (value_ofSize_zero.trans value_zero.symm)
  exact RoundedScalar.add_zero (isNumber_of_isFinite span.start_finite)
    (RoundedScalar.zero_mul zero span.step_finite)

theorem between (span : Span start stop n) {node : α} (member : node ∈ evenlySpaced start stop n) :
    start ≤ node ∧ node ≤ start + way start stop n (n - 1) := by
  obtain ⟨i, inside, rfl⟩ := mem_evenlySpaced_iff.mp member
  constructor
  · exact le_trans (beq_iff.mp span.first_beq).2 (span.node_le_node (Nat.zero_le i) inside)
  · exact span.node_le_node (Nat.le_sub_one_of_lt inside) span.last_lt

/-- The way to the last node before it is rounded. -/
theorem last_product_near (span : Span start stop n) :
    |value (Scalar.ofSize (n - 1) : α) * value (step start stop n) - (value stop - value start)| ≤
      9 / 4 * (roundoff (format α) * (value stop - value start)) +
        5 / 8 * ((n - 1 : Nat) * leastUnit (format α)) := by
  have positive := zero_lt_one.trans_le span.one_le_count
  have quotient := (span.roundsTo_step.rounds span.step_finite).error
  rw [abs_of_pos (div_pos span.length_pos positive)] at quotient
  exact product_near (roundoff_pos _).le (roundoff_le _) (leastUnit_pos _).le span.extent_pos.le
    (Nat.cast_nonneg _) positive span.length_error (value_ofSize_error span.last_size) quotient

theorem last_product_nonneg (span : Span start stop n) :
    0 ≤ value (Scalar.ofSize (n - 1) : α) * value (step start stop n) :=
  mul_nonneg (zero_le_one.trans span.one_le_count) span.step_nonneg

theorem last_product_le (span : Span start stop n) :
    |value (Scalar.ofSize (n - 1) : α) * value (step start stop n)| ≤
      value stop - value start + drift start stop n := by
  have near := (abs_sub_le_iff.mp span.last_product_near).1
  have size : ((n - 1 : Nat) : ℚ) ≤ n := by exact_mod_cast Nat.sub_le n 1
  have units := mul_le_mul_of_nonneg_right size (leastUnit_pos (format α)).le
  have part := mul_pos (roundoff_pos (format α)) span.extent_pos
  have nonneg := mul_leastUnit_nonneg (format α) (n - 1)
  rw [abs_of_nonneg span.last_product_nonneg, drift]
  linarith

/-- The sum that the last node is rounded from. -/
theorem last_sum_near (span : Span start stop n) (finite : IsFinite (way start stop n (n - 1))) :
    |value start + value (way start stop n (n - 1)) - value stop| ≤ drift start stop n := by
  have error := ((span.roundsTo_way span.last_lt).rounds finite).error
  rw [abs_of_nonneg span.last_product_nonneg] at error
  have bound := rounded_product_near (roundoff_pos _).le (roundoff_le _) (leastUnit_pos _).le
    span.extent_pos.le (Nat.cast_nonneg _) span.last_product_near error
  rw [← Nat.cast_add_one, Nat.sub_add_cancel span.pos] at bound
  rwa [add_comm, ← sub_sub_eq_add_sub]

theorem last_way_finite (span : Span start stop n) {bound : α} (finite : IsFinite bound)
    (room : value stop - value start + drift start stop n ≤ |value bound|) :
    IsFinite (way start stop n (n - 1)) :=
  (span.roundsTo_way span.last_lt).isFinite_of_abs_le finite (span.last_product_le.trans room)

/-- The way to a finite node is finite. -/
theorem way_finite (span : Span start stop n) {i : Nat} (inside : i < n)
    (finite : IsFinite (start + way start stop n i)) : IsFinite (way start stop n i) := by
  rcases Binary.isFinite_or_infinity (span.roundsTo_way inside).isNaN with finite | ⟨s, infinite⟩
  · exact finite
  · change (unpacked (start + way start stop n i)).isFinite = true at finite
    rw [unpacked_add_infinity span.start_finite infinite] at finite
    contradiction

theorem last_error (span : Span start stop n)
    (finite : IsFinite (start + way start stop n (n - 1))) :
    |value (start + way start stop n (n - 1)) - value stop| ≤ endError start stop n := by
  have reached := span.way_finite span.last_lt finite
  have near := span.last_sum_near reached
  have sum := value_add_error span.start_finite reached finite
  generalize value start + value (way start stop n (n - 1)) = exact at near sum
  have path := abs_sub_le (value (start + way start stop n (n - 1))) exact (value stop)
  have size := abs_sub_abs_le_abs_sub exact (value stop)
  have part := roundoff_pos (format α)
  have longer := mul_le_mul_of_nonneg_left (size.trans near) part.le
  have small := mul_le_mul_of_nonneg_right (roundoff_le (format α)) ((abs_nonneg _).trans near)
  have units := mul_leastUnit_nonneg (format α) n
  rw [drift] at near longer small
  rw [endError]
  linarith

theorem last_finite (span : Span start stop n) {bound : α} (finite : IsFinite bound)
    (room : |value stop| + (value stop - value start) + drift start stop n ≤ value bound) :
    IsFinite (start + way start stop n (n - 1)) := by
  have extent := span.extent_pos
  have large := room.trans (le_abs_self _)
  have reached := span.last_way_finite finite (by linarith [abs_nonneg (value stop)])
  have near := span.last_sum_near reached
  refine (roundsTo_add span.start_finite reached).isFinite_of_abs_le finite ?_
  linarith [abs_sub_abs_le_abs_sub (value start + value (way start stop n (n - 1))) (value stop)]

/-- Where the nodes are close together, the last one is nearer to the end than to other numbers. -/
theorem last_beq_of_close (span : Span start stop n)
    (close : 2 * drift start stop n < roundoff (format α) * |value stop|) :
    (start + way start stop n (n - 1) == stop) = true := by
  have part := roundoff_pos (format α)
  have most := mul_le_mul_of_nonneg_right (roundoff_le (format α)) (abs_nonneg (value stop))
  have units := mul_leastUnit_nonneg (format α) n
  have short : 8 * (value stop - value start) < |value stop| := by
    rw [drift] at close
    exact lt_of_mul_lt_mul_left (a := roundoff (format α)) (by linarith) part.le
  have reached := span.last_way_finite span.stop_finite (by linarith [abs_nonneg (value stop)])
  have near := span.last_sum_near reached
  exact (roundsTo_add span.start_finite reached).beq_of_close span.stop_finite (by linarith)

end Span

namespace OnGrid

variable {start stop : α} {n : Nat} {e first gap : ℤ}

theorem extent_eq (grid : OnGrid start stop n e first gap) :
    value stop - value start = ((n - 1) * gap : ℤ) * 2 ^ e := by
  rw [grid.start_eq, grid.stop_eq]
  push_cast
  ring

theorem gap_pos (grid : OnGrid start stop n e first gap) (span : Span start stop n) : 0 < gap := by
  have extent := span.extent_pos
  rw [grid.extent_eq, mul_pos_iff_of_pos_right (zpow_pos two_pos e), Int.cast_pos] at extent
  have two := span.two_le
  exact pos_of_mul_pos_right extent (by omega)

/-- No node is further from the start than the last one. -/
theorem steps_le (grid : OnGrid start stop n e first gap) (span : Span start stop n) {i : Nat}
    (inside : i < n) : i * gap ≤ (n - 1) * gap :=
  mul_le_mul_of_nonneg_right (by omega) (grid.gap_pos span).le

theorem length_eq (grid : OnGrid start stop n e first gap) (span : Span start stop n) :
    value (stop - start) = value stop - value start := by
  have steps := grid.steps_le span span.pos
  rw [Nat.cast_zero, zero_mul] at steps
  refine (roundsTo_sub span.stop_finite span.start_finite).value_eq_of_units span.length_finite
    grid.extent_eq grid.minExponent_le ?_
  rw [abs_of_nonneg steps]
  exact grid.length_lt

variable [BinarySizes α]

theorem size_eq (grid : OnGrid start stop n e first gap) (span : Span start stop n) {i : Nat}
    (inside : i < n) : value (Scalar.ofSize i : α) = i := by
  have size := inside.le.trans span.size
  have room := (grid.steps_le span inside).trans_lt grid.length_lt
  refine (roundsTo_ofSize size).value_eq_of_units (z := i) (e := 0) (isFinite_ofSize size) ?_
    (minExponent_nonpos _) ?_
  · rw [zpow_zero, mul_one, Int.cast_natCast]
  · rw [Nat.abs_cast]
    exact (le_mul_of_one_le_right (Nat.cast_nonneg i) (grid.gap_pos span)).trans_lt room

theorem step_eq (grid : OnGrid start stop n e first gap) (span : Span start stop n) :
    value (step start stop n) = gap * 2 ^ e := by
  have two := span.two_le
  have some := grid.gap_pos span
  have rounded := span.roundsTo_step
  have steps : (0 : ℚ) < n - 1 := sub_pos.mpr (Nat.one_lt_cast.mpr two)
  have exact : value (stop - start) / value (Scalar.ofSize (n - 1) : α) = gap * 2 ^ e := by
    rw [grid.length_eq span, grid.extent_eq, grid.size_eq span (by omega),
      Nat.cast_pred (by omega)]
    push_cast
    field_simp
  refine (rounded.value_eq_of_units span.step_finite exact grid.minExponent_le ?_).trans exact
  rw [abs_of_pos some]
  exact (le_mul_of_one_le_left some.le (by omega)).trans_lt grid.length_lt

theorem way_eq (grid : OnGrid start stop n e first gap) (span : Span start stop n) {i : Nat}
    (inside : i < n) : IsFinite (way start stop n i) ∧
      value (way start stop n i) = (i * gap : ℤ) * 2 ^ e := by
  have unit : (0 : ℚ) < 2 ^ e := zpow_pos two_pos e
  have rounded := span.roundsTo_way inside
  have exact : value (Scalar.ofSize i : α) * value (step start stop n) = (i * gap : ℤ) * 2 ^ e := by
    rw [grid.size_eq span inside, grid.step_eq span]
    push_cast
    ring
  have nonneg : 0 ≤ i * gap := mul_nonneg (Nat.cast_nonneg i) (grid.gap_pos span).le
  have steps := grid.steps_le span inside
  have finite : IsFinite (way start stop n i) := by
    refine rounded.isFinite_of_abs_le span.length_finite ?_
    rw [exact, grid.length_eq span, grid.extent_eq, abs_mul, abs_mul]
    refine mul_le_mul_of_nonneg_right ?_ (abs_nonneg _)
    exact_mod_cast abs_le_abs_of_nonneg nonneg steps
  refine ⟨finite, (rounded.value_eq_of_units finite exact grid.minExponent_le ?_).trans exact⟩
  rw [abs_of_nonneg nonneg]
  exact steps.trans_lt grid.length_lt

/-- Every node is exactly where it should be. -/
theorem node_eq (grid : OnGrid start stop n e first gap) (span : Span start stop n) {i : Nat}
    (inside : i < n) : IsFinite (start + way start stop n i) ∧
      value (start + way start stop n i) = (first + i * gap : ℤ) * 2 ^ e := by
  obtain ⟨reached, way_eq⟩ := grid.way_eq span inside
  have rounded := roundsTo_add span.start_finite reached
  have exact : value start + value (way start stop n i) = (first + i * gap : ℤ) * 2 ^ e := by
    rw [grid.start_eq, way_eq, ← add_mul, ← Int.cast_add]
  have nonneg : 0 ≤ i * gap := mul_nonneg (Nat.cast_nonneg i) (grid.gap_pos span).le
  have steps := grid.steps_le span inside
  have finite : IsFinite (start + way start stop n i) := by
    have unit : (0 : ℚ) ≤ |2 ^ e| := abs_nonneg _
    rcases le_or_gt 0 (first + i * gap) with up | down
    · refine rounded.isFinite_of_abs_le span.stop_finite ?_
      rw [exact, grid.stop_eq, abs_mul, abs_mul]
      refine mul_le_mul_of_nonneg_right ?_ unit
      exact_mod_cast abs_le_abs_of_nonneg up (by linarith : _ ≤ first + (n - 1) * gap)
    · refine rounded.isFinite_of_abs_le span.start_finite ?_
      rw [exact, grid.start_eq, abs_mul, abs_mul]
      refine mul_le_mul_of_nonneg_right ?_ unit
      exact_mod_cast abs_le_abs_of_nonpos down.le (by linarith : first ≤ first + i * gap)
  refine ⟨finite, (rounded.value_eq_of_units finite exact grid.minExponent_le ?_).trans exact⟩
  obtain ⟨above, -⟩ := abs_lt.mp grid.start_lt
  obtain ⟨-, below⟩ := abs_lt.mp grid.stop_lt
  exact abs_lt.mpr ⟨by linarith, by linarith⟩

theorem last_beq (grid : OnGrid start stop n e first gap) (span : Span start stop n) :
    (start + way start stop n (n - 1) == stop) = true := by
  obtain ⟨finite, last_eq⟩ := grid.node_eq span span.last_lt
  rw [beq_iff_value finite span.stop_finite, last_eq, grid.stop_eq, Nat.cast_pred span.pos]
  push_cast
  rfl

end OnGrid

variable [BinarySizes α] {start stop : α} {n : Nat}

/-- In binary floating point, evenly spaced nodes come in order, the first one at the start. The
last one is off the end by a few rounding errors at most, on either side, and finite if the format
has room for it. All nodes are inside of the ends if it is; and it is at the end if the nodes lie on
a grid of the format or are close together compared to where they end. -/
theorem evenlySpaced_ends (start stop : α) (n : Nat) (span : Span start stop n) :
    (evenlySpaced start stop n).length = n ∧ (evenlySpaced start stop n).Pairwise (· ≤ ·) ∧
      (∃ first, (evenlySpaced start stop n)[0]? = some first ∧ (first == start) = true) ∧
      ∃ last, (evenlySpaced start stop n)[n - 1]? = some last ∧
        (∀ node ∈ evenlySpaced start stop n, start ≤ node ∧ node ≤ last) ∧
        ((∀ node ∈ evenlySpaced start stop n, node ≤ stop) ↔ last ≤ stop) ∧
        (IsFinite last → |value last - value stop| ≤ endError start stop n) ∧
        (∀ bound : α, IsFinite bound → |value stop| + (value stop - value start) +
          drift start stop n ≤ value bound → IsFinite last) ∧
        ((∃ e first gap, OnGrid start stop n e first gap) ∨
            2 * drift start stop n < roundoff (format α) * |value stop| →
          (last == stop) = true) := by
  have first := evenlySpaced_getElem? start stop span.pos
  have last := evenlySpaced_getElem? start stop span.last_lt
  have inside : (∀ node ∈ evenlySpaced start stop n, node ≤ stop) ↔
      start + way start stop n (n - 1) ≤ stop := by
    constructor
    · intro inside
      exact inside _ (List.mem_of_getElem? last)
    · intro up node member
      exact le_trans (span.between member).2 up
  refine ⟨evenlySpaced_length start stop n, span.ordered, ⟨_, first, span.first_beq⟩, _, last,
    fun node => span.between, inside, span.last_error, fun bound => span.last_finite, ?_⟩
  rintro (⟨e, first, gap, grid⟩ | close)
  · exact grid.last_beq span
  · exact span.last_beq_of_close close

/-- Steps of a seventh are rounded, but seven of them lead from 100 to 101. -/
theorem evenlySpaced_ends_sevenths :
    ∃ last, (evenlySpaced (100 : Float) 101 8)[7]? = some last ∧ (last == 101) = true ∧
      ∀ node ∈ evenlySpaced (100 : Float) 101 8, 100 ≤ node ∧ node ≤ 101 := by
  have span : Span (100 : Float) 101 8 :=
    ⟨float64_isFinite_iff.mpr (by decide), float64_isFinite_iff.mpr (by decide),
      float64_isFinite_iff.mpr (by decide), by decide, by decide, by decide⟩
  have close : 2 * drift (100 : Float) 101 8 < roundoff (format Float) * |value (101 : Float)| := by
    decide +kernel
  obtain ⟨-, -, -, last, found, between, inside, -, -, exact⟩ :=
    evenlySpaced_ends (100 : Float) 101 8 span
  have same := exact (.inr close)
  exact ⟨last, found, same, fun node member =>
    ⟨(between node member).1, inside.mpr (beq_iff.mp same).1 node member⟩⟩

-- Four steps of a half from -1 to 1, counted in halves.
example : OnGrid (-1 : Float) 1 5 (-1) (-2) 1 := by
  constructor <;> decide +kernel

-- The distance from -1/10 to 1/5 is rounded up, and so is the last node.
example : (evenlySpaced (-(1 / 10) : Float) (1 / 5) 2).map (decide <| 1 / 5 < ·) =
    [false, true] := by
  decide +kernel

end Interpolant.Nodes
