import Interpolant.Proofs.SampleWeights
import Interpolant.Proofs.WindowPosition
import Interpolant.Proofs.WindowedOutcome

/-! # Passing through the samples

Whatever rounding does elsewhere, an interpolation passes through its samples exactly: at the
location of a sample every method gives back the values of the sample, from a whole table and from
the samples around the query alike, whose window always holds the sample that the query is at. A
value is missing only where a number on the way to it overflowed.
-/

namespace Interpolant

universe u

open OrderedScalar RoundedScalar

variable {α : Type u} [Scalar α] [OrderedScalar α]

/-- The call succeeds with the values of sample `m`; some may be missing if numbers were lost. -/
structure Written.Reproduces (call : Written α) (table : Table α) (m : Nat) (lost : Prop) :
    Prop where
  success : call.result = .ok ()
  length : call.out.length = table.stride
  entry : ∀ k < table.stride, ∃ v y, call.out[k]? = some v ∧
    table.values[m * table.stride + k]? = some y ∧ EqualUnless lost v y

/-- The distance between the two ends of a chord overflows. -/
def Chord.Overflows (locations : List α) : Prop :=
  ∃ x₀ x₁, locations = [x₀, x₁] ∧ IsInfinite (x₁ - x₀)

/-- Something overflows on the way to the weights of the samples. -/
def Method.Overflows : Method → α → List α → Prop
  | .lagrange, x, locations => Basis.Overflows x locations
  | .linear, _, locations => Chord.Overflows locations

theorem Basis.not_repeats_of_increasing {locations : List α}
    (increasing : locations.Pairwise (· < ·)) (i j : Nat) : ¬ Repeats locations i j := by
  rintro ⟨before, a, b, left, right, same⟩
  exact not_beq_of_lt (related_of_pairwise increasing before left right) same

variable [RoundedScalar α] {table : CheckedTable α} {out : List α} {m : Nat} {a x : α}

private theorem Lagrange.interpolate_reproduces (finite : ∀ a ∈ table.locations, IsFinite a)
    (values : ∀ y ∈ table.values, IsFinite y)
    (distinct : ∀ i j, ¬ Basis.Repeats table.locations i j)
    (here : table.locations[m]? = some a) (same : (x == a) = true)
    (room : out.length = table.stride) :
    (Lagrange.interpolate x table out).Reproduces table m (Basis.Overflows x table.locations) := by
  have none := (Basis.coincidence?_eq_none_iff_of_finite finite).mpr distinct
  rw [Lagrange.interpolate_checked, Table.evaluate_of_distinct room none]
  exact ⟨rfl, Table.value_length table.aligned x,
    fun k inside => Table.value_at_sample table.aligned finite values distinct here same inside⟩

namespace Chord

private theorem weight_one {gap distance : α} (same : (distance == gap) = true)
    (apart : ¬ (gap == 0) = true) : EqualUnless (IsInfinite gap) (distance / gap) 1 := by
  by_cases finite : IsFinite gap
  · exact .inl (div_self same finite apart)
  · refine .inr ⟨fun number => ?_, isNumber_of_beq (beq_symm same), finite⟩
    exact finite ((finite_of_div number).elim (isFinite_congr same).mp id)

/-- At either end of a chord the weight of that end is one, and the other weight is zero. -/
private theorem weights_at_end {x₀ x₁ : α} (left : IsFinite x₀) (right : IsFinite x₁)
    (apart : ¬ (x₁ - x₀ == 0) = true) (y₀ y₁ : α) (finite₀ : IsFinite y₀) (finite₁ : IsFinite y₁) :
    ((x == x₀) = true → EqualUnless (IsInfinite (x₁ - x₀))
      ((x₁ - x) / (x₁ - x₀) * y₀ + (x - x₀) / (x₁ - x₀) * y₁) y₀) ∧
    ((x == x₁) = true → EqualUnless (IsInfinite (x₁ - x₀))
      ((x₁ - x) / (x₁ - x₀) * y₀ + (x - x₀) / (x₁ - x₀) * y₁) y₁) := by
  have number := isNumber_sub right left
  constructor
  · intro same
    have query := (isFinite_congr same).mpr left
    have one := weight_one (sub_congr (isNumber_of_isFinite right) same right query) apart
    have zero := zero_div (sub_beq_zero_iff.mpr ⟨query, left, same⟩) number apart
    exact (one.one_mul finite₀).add_zero (EqualUnless.zero_mul (.inl zero) finite₁)
  · intro same
    have query := (isFinite_congr same).mpr right
    have zero := zero_div (sub_beq_zero_iff.mpr ⟨right, query, beq_symm same⟩) number apart
    have one := weight_one (sub_congr same (isNumber_of_isFinite left) query left) apart
    exact (EqualUnless.zero_mul (.inl zero) finite₀).zero_add (one.one_mul finite₁)

private theorem interpolate_reproduces (pair : table.size = 2)
    (finite : ∀ a ∈ table.locations, IsFinite a) (values : ∀ y ∈ table.values, IsFinite y)
    (distinct : ∀ i j, ¬ Basis.Repeats table.locations i j)
    (here : table.locations[m]? = some a) (same : (x == a) = true)
    (room : out.length = table.stride) :
    (Chord.interpolate x table out).Reproduces table m (Overflows table.locations) := by
  obtain ⟨x₀, x₁, ends⟩ := List.length_eq_two.mp pair
  have left : table.locations[0]? = some x₀ := by rw [ends]; rfl
  have right : table.locations[1]? = some x₁ := by rw [ends]; rfl
  have apart : ¬ (x₁ - x₀ == 0) = true := sub_not_beq_zero fun same =>
    distinct 0 1 ⟨Nat.zero_lt_one, x₀, x₁, left, right, beq_symm same⟩
  rw [interpolate_of_ends table.aligned room ends, if_neg apart]
  refine ⟨rfl, blend_length table.aligned ends _ _, fun k inside => ?_⟩
  · obtain ⟨y₀, entry₀, value₀⟩ := Table.exists_block_entry table.aligned (i := 0) (by omega) inside
    obtain ⟨y₁, entry₁, value₁⟩ := Table.exists_block_entry table.aligned (i := 1) (by omega) inside
    obtain ⟨atLeft, atRight⟩ := weights_at_end (x := x) (finite x₀ (List.mem_of_getElem? left))
      (finite x₁ (List.mem_of_getElem? right)) apart y₀ y₁ (values y₀ (List.mem_of_getElem? value₀))
      (values y₁ (List.mem_of_getElem? value₁))
    have overflow {u v : α} (equal : EqualUnless (IsInfinite (x₁ - x₀)) u v) :
        EqualUnless (Overflows table.locations) u v :=
      equal.imp_right fun lost => ⟨lost.1, x₀, x₁, ends, lost.2⟩
    refine ⟨_, if m = 0 then y₀ else y₁, blend_getElem? entry₀ entry₁, ?_⟩
    rcases m with _ | _ | m
    · obtain rfl := Option.some.inj (here.symm.trans left)
      exact ⟨value₀, overflow (atLeft same)⟩
    · obtain rfl := Option.some.inj (here.symm.trans right)
      exact ⟨value₁, overflow (atRight same)⟩
    · rw [ends] at here
      contradiction

end Chord

namespace Method

private theorem interpolate_reproduces {method : Method} (table : CheckedTable α)
    (pair : method = .linear → table.size = 2) (finite : ∀ a ∈ table.locations, IsFinite a)
    (values : ∀ y ∈ table.values, IsFinite y)
    (distinct : ∀ i j, ¬ Basis.Repeats table.locations i j)
    (here : table.locations[m]? = some a) (same : (x == a) = true)
    (room : out.length = table.stride) :
    (method.interpolate x table out).Reproduces table m (method.Overflows x table.locations) := by
  cases method with
  | lagrange => exact Lagrange.interpolate_reproduces finite values distinct here same room
  | linear => exact Chord.interpolate_reproduces (pair rfl) finite values distinct here same room

omit [RoundedScalar α] in
/-- A window selected for a query at a sample holds that sample. -/
private theorem select_at_sample (method : Method) (increasing : table.locations.Pairwise (· < ·))
    (here : table.locations[m]? = some a) (same : (x == a) = true) (degree : Nat) :
    ∃ window, (Window.select x table.locations (method.requiredSamples degree)).result =
      .ok window ∧ window.Contains m := by
  have two := method.two_le_requiredSamples degree
  have size := table.two_le_size
  have bound := (List.getElem?_eq_some_iff.mp here).1
  refine ⟨_, (Window.inGap_of_beq increasing here same).select_eq increasing size two, ?_⟩
  exact Window.around_contains (le_min two size) (min_le_right _ _) bound (.inl rfl)

private theorem interpolateWindowed_reproduces {method : Method}
    (finite : ∀ a ∈ table.locations, IsFinite a) (values : ∀ y ∈ table.values, IsFinite y)
    (increasing : table.locations.Pairwise (· < ·)) (here : table.locations[m]? = some a)
    (same : (x == a) = true) (room : out.length = table.stride) {degree : Nat} {window : Window}
    (selected : (Window.select x table.locations (method.requiredSamples degree)).result =
      .ok window) (held : window.Contains m) :
    (method.interpolateWindowed x table degree out).Reproduces table m
      (method.Overflows x (table.slice window.first window.count).locations) := by
  obtain ⟨location, block⟩ := table.slice_of_contains held
  obtain ⟨count, two, inside⟩ := Window.bounds_of_select selected
  obtain ⟨result, contents⟩ := interpolateWindowed_eq_of_ok table.aligned selected out
  have part := table.slice_locations_sublist window.first window.count
  have reproduces : (method.interpolate x (table.slice window.first window.count) out).Reproduces
      (table.slice window.first window.count) (m - window.first)
      (method.Overflows x (table.slice window.first window.count).locations) :=
    interpolate_reproduces (table.aligned.part two inside)
      (slice_size_of_linear count two inside)
      (fun b member => finite b (part.mem member))
      (fun y member => values y (List.mem_of_mem_drop (List.mem_of_mem_take member)))
      (Basis.not_repeats_of_increasing (increasing.sublist part)) (location.trans here) same room
  refine ⟨result.trans reproduces.success, contents ▸ reproduces.length, fun k inside => ?_⟩
  obtain ⟨v, y, entry, value, equal⟩ := reproduces.entry k inside
  refine ⟨v, y, contents ▸ entry, ?_, equal⟩
  rw [← (table.slice window.first window.count).block_getElem? inside, block,
    table.block_getElem? inside] at value
  exact value

/-- In binary floating point, an interpolation at the location of a sample gives back the values of
that sample, numerically equal and without any rounding error, or no number in the place of some:
these are lost only where a difference or a running product overflows on the way to the weights. -/
theorem interpolate_at_sample {α : Type} [Scalar α] [BinaryFloat α] (x : α) (table : Table α)
    (out : List α) (m : Nat) (a : α) (here : table.locations[m]? = some a)
    (same : (x == a) = true) (finite : ∀ a ∈ table.locations, IsFinite a)
    (values : ∀ y ∈ table.values, IsFinite y) (shape : table.WellFormed)
    (room : out.length = table.stride) :
    ((∀ i j, ¬ Basis.Repeats table.locations i j) →
        (Lagrange.interpolate x table out).Reproduces table m
          (Basis.Overflows x table.locations)) ∧
      ((∀ i j, ¬ Basis.Repeats table.locations i j) → table.size = 2 →
        (Chord.interpolate x table out).Reproduces table m (Chord.Overflows table.locations)) ∧
      (table.locations.Pairwise (· < ·) → ∀ (method : Method) (degree : Nat),
        ∃ window, (Window.select x table.locations (method.requiredSamples degree)).result =
            .ok window ∧ window.Contains m ∧
          (method.interpolateWindowed x table degree out).Reproduces table m
            (method.Overflows x (table.slice window.first window.count).locations)) := by
  obtain ⟨table, rfl⟩ := shape.exists_checked
  refine ⟨fun distinct => ?_, fun distinct pair => ?_, fun increasing method degree => ?_⟩
  · exact Lagrange.interpolate_reproduces finite values distinct here same room
  · exact Chord.interpolate_reproduces pair finite values distinct here same room
  · obtain ⟨window, selected, held⟩ := select_at_sample method increasing here same degree
    exact ⟨window, selected, held, interpolateWindowed_reproduces finite values increasing here same
      room selected held⟩

/-- Tenths are rounded, and so are the thirds and sevenths sampled there, yet a whole table and a
chord in it both give back the sampled value. -/
theorem interpolate_at_sample_tenths :
    let table : Table Float := ⟨[1 / 10, 1 / 5, 3 / 10], [1 / 3, 1 / 7, 1 / 9], 1⟩
    (∃ v, (Lagrange.interpolate (1 / 5) table [0]).out[0]? = some v ∧ (v == 1 / 7) = true) ∧
      ∃ v, (interpolateWindowed .linear (1 / 5) table 1 [0]).out[0]? = some v ∧
        (v == 1 / 7) = true := by
  intro table
  have increasing : table.locations.Pairwise (· < ·) := by decide
  have finite : ∀ a ∈ table.locations, a.isFinite = true := by decide
  have values : ∀ y ∈ table.values, y.isFinite = true := by decide
  obtain ⟨whole, -, windowed⟩ := interpolate_at_sample (1 / 5) table [0] 1 (1 / 5) rfl (by decide)
    finite values ⟨by decide, by decide, by decide, by decide⟩ rfl
  obtain ⟨window, -, -, linear⟩ := windowed increasing .linear 1
  constructor
  · obtain ⟨v, y, entry, value, equal⟩ :=
      (whole (Basis.not_repeats_of_increasing increasing)).entry 0 (by decide)
    obtain rfl : 1 / 7 = y := Option.some.inj value
    have number : ((Lagrange.interpolate (1 / 5) table [0]).out[0]?.all fun v => v == v) := by
      decide +kernel
    rw [entry] at number
    exact ⟨v, entry, equal.resolve_right fun lost => lost.1 number⟩
  · obtain ⟨v, y, entry, value, equal⟩ := linear.entry 0 (by decide)
    obtain rfl : 1 / 7 = y := Option.some.inj value
    have number : ((interpolateWindowed .linear (1 / 5) table 1 [0]).out[0]?.all
        fun v => v == v) := by
      decide +kernel
    rw [entry] at number
    exact ⟨v, entry, equal.resolve_right fun lost => lost.1 number⟩

-- The distance between the ends overflows, and the value of the left one is lost.
example : (Chord.interpolate (-1e308 : Float) ⟨[-1e308, 1e308], [1, 2], 1⟩ [0]).out.all
    (·.isNaN) = true := by
  decide +kernel

end Method

end Interpolant
