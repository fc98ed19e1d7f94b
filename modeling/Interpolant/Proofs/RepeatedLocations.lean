import Interpolant.Method
import Interpolant.Proofs.SampleWeights

/-! # Repeated locations

Whether two locations are equal is tested by their difference. Among floating point numbers the two
come to the same for all finite locations, however close they are to each other or to zero. Equal
infinities have no difference, so that nothing tells them apart from different locations: samples at
a repeated infinity are not refused, and what is computed from them are no numbers.
-/

namespace Interpolant

universe u

open OrderedScalar RoundedScalar

namespace Basis

variable {α : Type u} [Scalar α] [OrderedScalar α]

/-- The samples at two positions have equal locations, which are not infinite. -/
def FiniteRepeat (locations : List α) (i j : Nat) : Prop :=
  Repeats locations i j ∧ ∃ a, locations[i]? = some a ∧ IsFinite a

/-- The first pair of equal locations that are not infinite. -/
def FirstFiniteRepeat (locations : List α) (i j : Nat) : Prop :=
  FiniteRepeat locations i j ∧ ∀ i' j', FiniteRepeat locations i' j' → i < i' ∨ i = i' ∧ j ≤ j'

variable [RoundedScalar α] {locations : List α} {i j : Nat}

theorem coincide_of_finiteRepeat (repeats : FiniteRepeat locations i j) :
    Coincide locations i j := by
  obtain ⟨⟨before, a, b, left, right, same⟩, c, here, finite⟩ := repeats
  obtain rfl := Option.some.inj (here.symm.trans left)
  have other := (isFinite_congr same).mp finite
  exact ⟨before.ne, c, b, left, right, sub_beq_zero_iff.mpr ⟨finite, other, same⟩⟩

omit [RoundedScalar α] in
theorem finiteRepeat_of_coincide (coincide : Coincide locations i j) (before : i < j) :
    FiniteRepeat locations i j := by
  obtain ⟨-, a, b, left, right, vanishes⟩ := coincide
  obtain ⟨finite, -, same⟩ := sub_beq_zero_iff.mp vanishes
  exact ⟨⟨before, a, b, left, right, same⟩, a, left, finite⟩

theorem coincidence?_eq_none_iff_finiteRepeat :
    coincidence? locations = none ↔ ∀ i j, ¬ FiniteRepeat locations i j := by
  rw [coincidence?_eq_none_iff]
  constructor
  · exact fun none i j repeats => none i j (coincide_of_finiteRepeat repeats)
  · rintro none i j coincide
    rcases Nat.lt_or_gt_of_ne coincide.1 with before | after
    · exact none i j (finiteRepeat_of_coincide coincide before)
    · exact none j i (finiteRepeat_of_coincide coincide.symm after)

theorem firstFiniteRepeat_of_coincidence? {met : Coincidence}
    (found : coincidence? locations = some met) :
    FirstFiniteRepeat locations met.own met.other := by
  obtain ⟨coincide, -, -⟩ := first_of_coincidence? found
  refine ⟨finiteRepeat_of_coincide coincide (own_lt_other_of_coincidence? found), ?_⟩
  exact fun i j repeats => least_of_coincidence? found (coincide_of_finiteRepeat repeats)

/-! ### What is lost stays lost -/

theorem foldl_grow_lost {x own p : α} (others : List (α × Nat)) (missing : ¬ IsNumber p) :
    ¬ IsNumber (others.foldl (grow x own) p) := by
  induction others generalizing p with
  | nil => exact missing
  | cons sample rest ih => exact ih (Usable.grow_lost missing)

/-- One missing difference loses the whole coefficient. -/
theorem foldl_grow_lost_of_mem {x own p : α} {others : List (α × Nat)} {sample : α × Nat}
    (member : sample ∈ others) (missing : ¬ IsNumber (own - sample.1)) :
    ¬ IsNumber (others.foldl (grow x own) p) := by
  induction others generalizing p with
  | nil => contradiction
  | cons other rest ih =>
    rcases List.mem_cons.mp member with rfl | behind
    · exact foldl_grow_lost rest fun number => missing (number_of_div number).2
    · exact ih behind

end Basis

variable {α : Type u}

private theorem exists_of_mem_zipWith {f : α → α → α} {left right : List α} {v : α}
    (member : v ∈ left.zipWith f right) : ∃ a ∈ left, ∃ b ∈ right, f a b = v := by
  rw [← List.map_uncurry_zip_eq_zipWith] at member
  obtain ⟨⟨a, b⟩, pair, rfl⟩ := List.mem_map.mp member
  obtain ⟨here, there⟩ := List.of_mem_zip pair
  exact ⟨a, here, b, there, rfl⟩

namespace Table

variable [Scalar α] [OrderedScalar α] [RoundedScalar α] {table : Table α} {x : α}

/-- Sums that are lost stay lost, and a lost coefficient loses all of them. -/
theorem addSample_lost {sums : List α} {sample : (α × Nat) × List α}
    (missing : (∀ s ∈ sums, ¬ IsNumber s) ∨
      ¬ IsNumber (Basis.weight x sample.1.1 (Basis.others table.locations sample.1.2))) :
    ∀ v ∈ table.addSample x sums sample, ¬ IsNumber v := by
  intro v member number
  obtain ⟨s, present, y, -, rfl⟩ := exists_of_mem_zipWith member
  obtain ⟨sum, product⟩ := number_of_add number
  rcases missing with missing | missing
  · exact missing s present sum
  · exact missing (number_of_mul product).1

theorem foldl_addSample_lost {sums : List α} (samples : List ((α × Nat) × List α))
    (missing : ∀ s ∈ sums, ¬ IsNumber s) :
    ∀ v ∈ samples.foldl (table.addSample x) sums, ¬ IsNumber v := by
  induction samples generalizing sums with
  | nil => exact missing
  | cons sample rest ih => exact ih (addSample_lost (.inl missing))

/-- At two equal locations that are infinite, the weighted sums are lost. -/
theorem value_lost {i j : Nat} {a b : α} (left : table.locations[i]? = some a)
    (right : table.locations[j]? = some b) (apart : j ≠ i) (missing : ¬ IsNumber (a - b)) :
    ∀ v ∈ table.value x, ¬ IsNumber v := by
  have other : (b, j) ∈ Basis.others table.locations i := Basis.mem_others_iff.mpr ⟨right, apart⟩
  have weight : ¬ IsNumber (Basis.weight x a (Basis.others table.locations i)) :=
    Basis.foldl_grow_lost_of_mem other missing
  obtain ⟨before, after, split, -⟩ := samples_split left
  rw [value, split, List.foldl_append, List.foldl_cons]
  exact foldl_addSample_lost after (addSample_lost (.inr weight))

end Table

theorem Chord.blend_lost [Scalar α] [OrderedScalar α] [RoundedScalar α] {w₀ w₁ : α}
    {left right : List α} (missing : ¬ IsNumber w₀) : ∀ v ∈ blend w₀ w₁ left right, ¬ IsNumber v := by
  intro v member number
  obtain ⟨a, -, b, -, rfl⟩ := exists_of_mem_zipWith member
  exact missing (number_of_mul (number_of_add number).1).1

/-- What a call leaves behind that takes equal infinities for different locations. -/
structure Written.Lost [Scalar α] (call : Written α) (stride : Nat) : Prop where
  success : call.result = .ok ()
  length : call.out.length = stride
  missing : ∀ v ∈ call.out, ¬ IsNumber v

section Binary

variable {α : Type} [Scalar α] [BinaryFloat α] {table : Table α} {out : List α} {i j : Nat}

private theorem Table.evaluate_of_repeats (shape : table.Aligned) (room : out.length = table.stride)
    (repeats : Basis.Repeats table.locations i j) (x : α) :
    (∃ i j, Basis.FirstFiniteRepeat table.locations i j ∧
        (table.evaluate x out).result = .error (.degenerateSamples i j)) ∨
      (∀ i j, ¬ Basis.FiniteRepeat table.locations i j) ∧
        (table.evaluate x out).Lost table.stride := by
  cases found : Basis.coincidence? table.locations with
  | some met =>
    have first := Basis.firstFiniteRepeat_of_coincidence? found
    rw [evaluate_of_coincidence room found]
    refine .inl ⟨met.own, met.other, first, ?_⟩
    exact congrArg Except.error (Coincidence.fault_of_lt first.1.1.1)
  | none =>
    have distinct := Basis.coincidence?_eq_none_iff_finiteRepeat.mp found
    obtain ⟨before, a, b, left, right, same⟩ := repeats
    have infinite : ¬ IsFinite a := fun finite =>
      distinct i j ⟨⟨before, a, b, left, right, same⟩, a, left, finite⟩
    rw [evaluate_of_distinct room found]
    exact .inr ⟨distinct, rfl, value_length shape x,
      value_lost left right before.ne' (BinaryFloat.not_isNumber_sub same infinite)⟩

private theorem Chord.interpolate_of_repeated_ends (shape : table.Aligned) (pair : table.size = 2)
    (room : out.length = table.stride) (repeats : Basis.Repeats table.locations i j) (x : α) :
    (∃ i j, Basis.FirstFiniteRepeat table.locations i j ∧
        (interpolate x table out).result = .error (.degenerateSamples i j)) ∨
      (∀ i j, ¬ Basis.FiniteRepeat table.locations i j) ∧
        (interpolate x table out).Lost table.stride := by
  -- Among two samples there is only one pair.
  have only {i j : Nat} (repeats : Basis.Repeats table.locations i j) : i = 0 ∧ j = 1 := by
    obtain ⟨before, a, b, -, right, -⟩ := repeats
    have bound : j < table.size := (List.getElem?_eq_some_iff.mp right).1
    omega
  obtain ⟨rfl, rfl⟩ := only repeats
  obtain ⟨-, x₀, x₁, left, right, same⟩ := repeats
  have ends : table.locations = [x₀, x₁] := by
    obtain ⟨a, b, ends⟩ := List.length_eq_two.mp pair
    rw [ends] at left right ⊢
    rw [Option.some.inj left, Option.some.inj right]
  have first : Basis.Repeats table.locations 0 1 := ⟨Nat.zero_lt_one, x₀, x₁, left, right, same⟩
  rw [interpolate_of_ends shape room ends]
  by_cases finite : IsFinite x₀
  · have vanishes : (x₁ - x₀ == 0) = true :=
      sub_beq_zero_iff.mpr ⟨(isFinite_congr same).mp finite, finite, beq_symm same⟩
    rw [if_pos vanishes]
    refine .inl ⟨0, 1, ⟨⟨first, x₀, left, finite⟩, fun i j repeats => ?_⟩, rfl⟩
    obtain ⟨rfl, rfl⟩ := only repeats.1
    exact .inr ⟨rfl, Nat.le_refl 1⟩
  · have infinite : ¬ IsFinite x₁ := fun other => finite ((isFinite_congr same).mpr other)
    have missing := BinaryFloat.not_isNumber_sub (beq_symm same) infinite
    have stays : ¬ (x₁ - x₀ == 0) = true := fun zero => missing (isNumber_of_beq zero)
    rw [if_neg stays]
    refine .inr ⟨fun i j repeats => ?_, rfl, blend_length shape ends _ _, blend_lost ?_⟩
    · obtain ⟨rfl, rfl⟩ := only repeats.1
      obtain ⟨a, here, held⟩ := repeats.2
      obtain rfl := Option.some.inj (here.symm.trans left)
      exact finite held
    · exact fun number => missing (number_of_div number).2

/-- A repeated location is refused if it is finite, and the fault names the first two samples that
have the same one. If only infinities are repeated, nothing is refused, and every value that is
written is no number. -/
theorem Method.interpolate_of_repeats (method : Method) (x : α) (table : Table α) (out : List α)
    (shape : table.WellFormed) (room : out.length = table.stride)
    (pair : method = .linear → table.size = 2) (i j : Nat)
    (repeats : Basis.Repeats table.locations i j) :
    (∃ i j, Basis.FirstFiniteRepeat table.locations i j ∧
        (method.interpolate x table out).result = .error (.degenerateSamples i j)) ∨
      (∀ i j, ¬ Basis.FiniteRepeat table.locations i j) ∧
        (method.interpolate x table out).Lost table.stride := by
  obtain ⟨table, rfl⟩ := shape.exists_checked
  cases method with
  | lagrange =>
    rw [interpolate, Lagrange.interpolate_checked]
    exact Table.evaluate_of_repeats table.aligned room repeats x
  | linear => exact Chord.interpolate_of_repeated_ends table.aligned (pair rfl) room repeats x

/-- The infinity that two samples share goes unnoticed, with another repetition behind it or alone. -/
theorem Method.interpolate_of_repeats_infinite :
    let mixed : Table Float := ⟨[1 / 0, 1, 1 / 0, 1], [5, 6, 7, 8], 1⟩
    let infinite : Table Float := ⟨[1 / 0, 1 / 0], [1, 2], 1⟩
    (Method.lagrange.interpolate (1 / 2) mixed [9]).result = .error (.degenerateSamples 1 3) ∧
      Basis.FirstFiniteRepeat mixed.locations 1 3 ∧
      (Method.lagrange.interpolate (1 / 2) infinite [9]).Lost 1 ∧
      (Method.linear.interpolate (1 / 2) infinite [9]).Lost 1 := by
  intro mixed infinite
  have named : (Method.lagrange.interpolate (1 / 2) mixed [9]).result =
      .error (.degenerateSamples 1 3) := rfl
  have lost (method : Method) : (method.interpolate (1 / 2) infinite [9]).Lost 1 := by
    have success : (method.interpolate (1 / 2) infinite [9]).result = .ok () := by
      cases method <;> rfl
    rcases interpolate_of_repeats method (1 / 2) infinite [9]
      ⟨by decide, by decide, by decide, by decide⟩ rfl (fun _ => rfl) 0 1
      ⟨by decide, 1 / 0, 1 / 0, rfl, rfl, by decide⟩ with ⟨i, j, first, failed⟩ | ⟨-, lost⟩
    · exact nomatch success.symm.trans failed
    · exact lost
  refine ⟨named, ?_, lost .lagrange, lost .linear⟩
  rcases interpolate_of_repeats .lagrange (1 / 2) mixed [9]
    ⟨by decide, by decide, by decide, by decide⟩ rfl nofun 1 3
    ⟨by decide, 1, 1, rfl, rfl, by decide⟩ with ⟨i, j, first, failed⟩ | ⟨-, lost⟩
  · obtain ⟨rfl, rfl⟩ := Fault.degenerateSamples.inj (Except.error.inj (named.symm.trans failed))
    exact first
  · exact nomatch named.symm.trans lost.success

end Binary

end Interpolant
