import Interpolant.Proofs.Evaluation
import Interpolant.Proofs.BinaryFloat

/-! # Outcomes on whole tables

Whether an interpolation through all samples succeeds is decided by shapes and by the locations
alone. A wrong shape is reported before anything else; then the first pair of equal locations, which
is the first in the order of the positions although it is met in the middle of the evaluation.
-/

namespace Interpolant

universe u

open OrderedScalar

variable {α : Type u}

/-- A shape that no interpolation through all samples accepts. -/
def Table.Misshapen (table : Table α) (out : List α) : Prop :=
  table.stride = 0 ∨ table.size < 2 ∨ table.values.length ≠ table.size * table.stride ∨
    out.length ≠ table.stride

theorem Table.wellFormed_of_not_misshapen {table : Table α} {out : List α}
    (word : table.values.length ≤ Size.largest) (shaped : ¬ table.Misshapen out) :
    table.WellFormed ∧ out.length = table.stride := by
  simp only [Misshapen, not_or, Nat.not_lt, Decidable.not_not] at shaped
  obtain ⟨stride, size, values, room⟩ := shaped
  exact ⟨⟨Nat.pos_of_ne_zero stride, size, values, word⟩, room⟩

variable [Scalar α]

namespace Basis

/-- The samples at two positions have equal locations. -/
def Repeats (locations : List α) (i j : Nat) : Prop :=
  i < j ∧ ∃ a b, locations[i]? = some a ∧ locations[j]? = some b ∧ (a == b) = true

/-- The first pair of equal locations: no other begins earlier, or begins there and ends earlier. -/
def FirstRepeat (locations : List α) (i j : Nat) : Prop :=
  Repeats locations i j ∧ ∀ i' j', Repeats locations i' j' → i < i' ∨ i = i' ∧ j ≤ j'

theorem FirstRepeat.unique {locations : List α} {i j i' j' : Nat}
    (first : FirstRepeat locations i j) (first' : FirstRepeat locations i' j') :
    i = i' ∧ j = j' := by
  have forth := first.2 i' j' first'.1
  have back := first'.2 i j first.1
  omega

variable [OrderedScalar α]

theorem Coincide.symm {locations : List α} {i j : Nat} (coincide : Coincide locations i j) :
    Coincide locations j i := by
  obtain ⟨apart, a, b, left, right, vanishes⟩ := coincide
  obtain ⟨aFinite, bFinite, same⟩ := sub_beq_zero_iff.mp vanishes
  exact ⟨apart.symm, b, a, right, left, sub_beq_zero_iff.mpr ⟨bFinite, aFinite, beq_symm same⟩⟩

/-- Of two samples that coincide, an evaluation asks for the coefficient of the first one first. -/
theorem own_lt_other_of_coincidence? {locations : List α} {met : Coincidence}
    (found : coincidence? locations = some met) : met.own < met.other := by
  obtain ⟨coincide, leastOwn, -⟩ := first_of_coincidence? found
  exact Nat.lt_of_le_of_ne (leastOwn met.other met.own coincide.symm) coincide.1

theorem coincide_iff {locations : List α} (finite : ∀ a ∈ locations, IsFinite a) {i j : Nat} :
    Coincide locations i j ↔ Repeats locations i j ∨ Repeats locations j i := by
  constructor
  · rintro ⟨apart, a, b, left, right, vanishes⟩
    have same := (sub_beq_zero_iff.mp vanishes).2.2
    rcases Nat.lt_or_gt_of_ne apart with before | after
    · exact .inl ⟨before, a, b, left, right, same⟩
    · exact .inr ⟨after, b, a, right, left, beq_symm same⟩
  · have vanishes {a b : α} {i j : Nat} (left : locations[i]? = some a)
        (right : locations[j]? = some b) (same : (a == b) = true) : (a - b == 0) = true :=
      sub_beq_zero_iff.mpr ⟨finite a (List.mem_of_getElem? left),
        finite b (List.mem_of_getElem? right), same⟩
    rintro (⟨before, a, b, left, right, same⟩ | ⟨after, a, b, left, right, same⟩)
    · exact ⟨before.ne, a, b, left, right, vanishes left right same⟩
    · exact ⟨after.ne', b, a, right, left, vanishes right left (beq_symm same)⟩

/-- Among finite locations, an evaluation meets no coincidence if no two are equal. -/
theorem coincidence?_eq_none_iff_of_finite {locations : List α}
    (finite : ∀ a ∈ locations, IsFinite a) :
    coincidence? locations = none ↔ ∀ i j, ¬ Repeats locations i j := by
  rw [coincidence?_eq_none_iff]
  constructor
  · exact fun none i j repeats => none i j ((coincide_iff finite).mpr (.inl repeats))
  · rintro none i j coincide
    rcases (coincide_iff finite).mp coincide with forth | back
    · exact none i j forth
    · exact none j i back

/-- Among finite locations, the coincidence met first is the first repetition. -/
theorem firstRepeat_of_coincidence? {locations : List α} (finite : ∀ a ∈ locations, IsFinite a)
    {met : Coincidence} (found : coincidence? locations = some met) :
    FirstRepeat locations met.own met.other := by
  obtain ⟨coincide, -, -⟩ := first_of_coincidence? found
  have before := own_lt_other_of_coincidence? found
  constructor
  · refine ((coincide_iff finite).mp coincide).resolve_right ?_
    exact fun back => absurd back.1 before.not_gt
  · intro i j repeats
    exact least_of_coincidence? found ((coincide_iff finite).mpr (.inl repeats))

theorem coincidence?_eq_some_iff_of_finite {locations : List α}
    (finite : ∀ a ∈ locations, IsFinite a) {i j : Nat} :
    coincidence? locations = some ⟨i, j⟩ ↔ FirstRepeat locations i j := by
  constructor
  · exact fun found => firstRepeat_of_coincidence? finite found
  · intro first
    cases found : coincidence? locations with
    | none => exact absurd first.1 ((coincidence?_eq_none_iff_of_finite finite).mp found i j)
    | some met =>
      obtain ⟨rfl, rfl⟩ := first.unique (firstRepeat_of_coincidence? finite found)
      rfl

end Basis

theorem Coincidence.fault_of_lt {met : Coincidence} (before : met.own < met.other) :
    met.fault = .degenerateSamples met.own met.other := by
  rw [fault, Nat.min_eq_left before.le, Nat.max_eq_right before.le]

namespace Lagrange

theorem interpolate_of_unfit {table : Table α} {out : List α}
    (unfit : ¬ (table.WellFormed ∧ out.length = table.stride)) (x : α) :
    ∃ fault, fault.IsInvalidInput ∧ interpolate x table out = .refused fault out := by
  rcases refused_or_checked x table out with ⟨fault, invalid, refused⟩ | ⟨view, rfl, evaluated⟩
  · exact ⟨fault, invalid, refused⟩
  · have wrong : out.length ≠ view.stride := fun room => unfit ⟨view.wellFormed, room⟩
    exact ⟨.outputSize, trivial, evaluated.trans (Table.evaluate_of_wrong_room wrong x)⟩

theorem interpolate_of_misshapen {table : Table α} {out : List α} (wrong : table.Misshapen out)
    (x : α) : ∃ fault, fault.IsInvalidInput ∧ interpolate x table out = .refused fault out := by
  refine interpolate_of_unfit ?_ x
  rintro ⟨shape, fits⟩
  rcases wrong with stride | size | values | room
  · exact absurd stride shape.stride_pos.ne'
  · exact absurd size shape.two_le_size.not_gt
  · exact absurd shape.values_length values
  · exact room fits

/-- With a proper shape, only the locations decide. -/
theorem interpolate_result {table : Table α} {out : List α}
    (word : table.values.length ≤ Size.largest) (shaped : ¬ table.Misshapen out) (x : α) :
    (interpolate x table out).result =
      match Basis.coincidence? table.locations with
      | some met => .error met.fault
      | none => .ok () := by
  obtain ⟨shape, room⟩ := Table.wellFormed_of_not_misshapen word shaped
  obtain ⟨table, rfl⟩ := shape.exists_checked
  rw [interpolate_checked]
  cases found : Basis.coincidence? table.locations with
  | some met => rw [Table.evaluate_of_coincidence room found]; rfl
  | none => rw [Table.evaluate_of_distinct room found]; rfl

variable [OrderedScalar α]

theorem interpolate_cases {table : Table α} (finite : ∀ a ∈ table.locations, IsFinite a)
    (word : table.values.length ≤ Size.largest) (x : α) (out : List α) :
    (table.Misshapen out ∧ ∃ fault, fault.IsInvalidInput ∧
        interpolate x table out = .refused fault out) ∨
      (¬ table.Misshapen out ∧ ∃ i j, Basis.FirstRepeat table.locations i j ∧
        (interpolate x table out).result = .error (.degenerateSamples i j) ∧
        (interpolate x table out).out = List.replicate table.stride 0) ∨
      (¬ table.Misshapen out ∧ (∀ i j, ¬ Basis.Repeats table.locations i j) ∧
        (interpolate x table out).result = .ok ()) := by
  by_cases wrong : table.Misshapen out
  · exact .inl ⟨wrong, interpolate_of_misshapen wrong x⟩
  · obtain ⟨shape, room⟩ := Table.wellFormed_of_not_misshapen word wrong
    obtain ⟨table, rfl⟩ := shape.exists_checked
    rw [interpolate_checked]
    cases found : Basis.coincidence? table.locations with
    | some met =>
      have first := Basis.firstRepeat_of_coincidence? finite found
      rw [Table.evaluate_of_coincidence room found]
      refine .inr (.inl ⟨wrong, met.own, met.other, first, ?_, rfl⟩)
      exact congrArg Except.error (Coincidence.fault_of_lt first.1.1)
    | none =>
      rw [Table.evaluate_of_distinct room found]
      exact .inr (.inr ⟨wrong, (Basis.coincidence?_eq_none_iff_of_finite finite).mp found, rfl⟩)

/-- Shapes come first, whatever the buffer held; then the first pair of equal locations is named and
the buffer is zeroed; and there is no other fault. Once the shapes are right, neither the query nor
the values nor the buffer have a part in it. -/
theorem interpolate_outcome (x : α) (table : Table α) (out : List α)
    (finite : ∀ a ∈ table.locations, IsFinite a) (word : table.values.length ≤ Size.largest) :
    ((∃ fault, (interpolate x table out).result = .error fault ∧ fault.IsInvalidInput) ↔
        table.Misshapen out) ∧
      (table.Misshapen out → (interpolate x table out).out = out) ∧
      (∀ i j, (interpolate x table out).result = .error (.degenerateSamples i j) ↔
        ¬ table.Misshapen out ∧ Basis.FirstRepeat table.locations i j) ∧
      (∀ i j, (interpolate x table out).result = .error (.degenerateSamples i j) →
        (interpolate x table out).out = List.replicate table.stride 0) ∧
      ((interpolate x table out).result = .ok () ↔
        ¬ table.Misshapen out ∧ ∀ i j, ¬ Basis.Repeats table.locations i j) ∧
      ∀ x' table' out', table'.locations = table.locations →
        table'.values.length ≤ Size.largest → ¬ table.Misshapen out → ¬ table'.Misshapen out' →
        (interpolate x' table' out').result = (interpolate x table out).result := by
  have independent : ∀ x' table' out', table'.locations = table.locations →
      table'.values.length ≤ Size.largest → ¬ table.Misshapen out → ¬ table'.Misshapen out' →
      (interpolate x' table' out').result = (interpolate x table out).result := by
    intro x' table' out' same word' shaped shaped'
    rw [interpolate_result word shaped, interpolate_result word' shaped', same]
  rcases interpolate_cases finite word x out with
    ⟨wrong, fault, invalid, refused⟩ | ⟨shaped, i, j, first, failed, zeroed⟩ |
      ⟨shaped, distinct, success⟩
  · rw [refused] at independent ⊢
    refine ⟨⟨fun _ => wrong, fun _ => ⟨fault, rfl, invalid⟩⟩, fun _ => rfl, ?_, ?_, ?_, independent⟩
    · intro i j
      refine ⟨fun same => ?_, fun ⟨shaped, _⟩ => absurd wrong shaped⟩
      obtain rfl := Except.error.inj same
      contradiction
    · intro i j same
      obtain rfl := Except.error.inj same
      contradiction
    · exact ⟨nofun, fun ⟨shaped, _⟩ => absurd wrong shaped⟩
  · rw [failed] at independent ⊢
    refine ⟨⟨?_, fun wrong => absurd wrong shaped⟩, fun wrong => absurd wrong shaped, ?_,
      fun _ _ _ => zeroed, ?_, independent⟩
    · rintro ⟨fault, same, invalid⟩
      obtain rfl := Except.error.inj same
      contradiction
    · intro i' j'
      refine ⟨fun same => ?_, fun ⟨_, first'⟩ => ?_⟩
      · obtain ⟨rfl, rfl⟩ := Fault.degenerateSamples.inj (Except.error.inj same)
        exact ⟨shaped, first⟩
      · obtain ⟨rfl, rfl⟩ := first.unique first'
        rfl
    · exact ⟨nofun, fun ⟨_, distinct⟩ => absurd first.1 (distinct i j)⟩
  · rw [success] at independent ⊢
    refine ⟨⟨nofun, fun wrong => absurd wrong shaped⟩, fun wrong => absurd wrong shaped, ?_,
      nofun, ⟨fun _ => ⟨shaped, distinct⟩, fun _ => rfl⟩, independent⟩
    exact fun i j => ⟨nofun, fun ⟨_, first⟩ => absurd first.1 (distinct i j)⟩

/-- Of two repetitions that are nested in one another, the outer one is the first. -/
theorem interpolate_outcome_nested :
    (interpolate (2 : Float) ⟨[3, 1, 1, 3], [5, 6, 7, 8], 1⟩ [9]).result =
        .error (.degenerateSamples 0 3) ∧
      (interpolate (2 : Float) ⟨[3, 1, 1, 3], [5, 6, 7, 8], 1⟩ [9]).out = [0] ∧
      Basis.FirstRepeat ([3, 1, 1, 3] : List Float) 0 3 := by
  have finite : ∀ a ∈ ([3, 1, 1, 3] : List Float), a.isFinite = true := by decide
  obtain ⟨-, -, named, zeroed, -, -⟩ := interpolate_outcome (2 : Float)
    ⟨[3, 1, 1, 3], [5, 6, 7, 8], 1⟩ [9] finite (by decide)
  have failed : (interpolate (2 : Float) ⟨[3, 1, 1, 3], [5, 6, 7, 8], 1⟩ [9]).result =
      .error (.degenerateSamples 0 3) := rfl
  exact ⟨failed, zeroed 0 3 failed, ((named 0 3).mp failed).2⟩

end Lagrange

end Interpolant
