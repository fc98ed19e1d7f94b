import Interpolant.Lagrange

/-! # The coincidence that an evaluation meets

An evaluation asks for the coefficients of all samples in order, and for the factors of each of
them in order. The first difference of zero on that way depends on the locations only, so it can be
searched for without a query point: `Basis.coincidence?` is that search, and
`Basis.first_of_coincidence?` says which pair of positions it finds.
-/

namespace Interpolant

universe u

variable {α : Type u}

private theorem zipIdx_ascending (locations : List α) :
    locations.zipIdx.Pairwise fun earlier later => earlier.2 < later.2 := by
  apply List.pairwise_map.mp
  rw [List.zipIdx_map_snd]
  exact List.pairwise_lt_range'

private theorem before_of_ascending {sample other : α × Nat} {before after : List (α × Nat)}
    (ascending : (before ++ sample :: after).Pairwise fun earlier later => earlier.2 < later.2)
    (member : other ∈ before ++ sample :: after) (less : other.2 < sample.2) :
    other ∈ before := by
  obtain ⟨-, tail, -⟩ := List.pairwise_append.mp ascending
  rcases List.mem_append.mp member with early | late
  · exact early
  · rcases List.mem_cons.mp late with rfl | behind
    · omega
    · have above := List.rel_of_pairwise_cons tail behind
      omega

namespace Basis

theorem mem_others_iff {locations : List α} {i : Nat} {sample : α × Nat} :
    sample ∈ others locations i ↔ locations[sample.2]? = some sample.1 ∧ sample.2 ≠ i := by
  simp only [others, List.mem_filter, List.mem_zipIdx_iff_getElem?, bne_iff_ne]

variable [Scalar α]

/-- Two different samples, the difference of whose locations is zero. -/
def Coincide (locations : List α) (i j : Nat) : Prop :=
  i ≠ j ∧ ∃ a b, locations[i]? = some a ∧ locations[j]? = some b ∧ (a - b == 0) = true

/-- The first of the other samples that is no distance away from a sample located at `own`. -/
def vanishing? (own : α) (others : List (α × Nat)) : Option (α × Nat) :=
  others.find? fun sample => own - sample.1 == 0

/-- The coincidence met in the coefficient of one sample. -/
def metBy? (locations : List α) (sample : α × Nat) : Option Coincidence :=
  (vanishing? sample.1 (others locations sample.2)).map fun other => ⟨sample.2, other.2⟩

/-- The first coincidence met in the coefficients of all samples, in the order of the samples. -/
def coincidence? (locations : List α) : Option Coincidence :=
  locations.zipIdx.findSome? (metBy? locations)

theorem metBy?_eq_none_iff {locations : List α} {own : α} {i : Nat}
    (here : locations[i]? = some own) :
    metBy? locations (own, i) = none ↔ ∀ j, ¬ Coincide locations i j := by
  simp only [metBy?, vanishing?, Option.map_eq_none_iff, List.find?_eq_none]
  constructor
  · rintro none j ⟨apart, a, b, left, right, zero⟩
    obtain rfl : a = own := Option.some.inj (left.symm.trans here)
    exact none (b, j) (mem_others_iff.mpr ⟨right, Ne.symm apart⟩) zero
  · intro none other member zero
    obtain ⟨there, apart⟩ := mem_others_iff.mp member
    exact none other.2 ⟨Ne.symm apart, own, other.1, here, there, zero⟩

/-- The factor met first in a coefficient belongs to the first sample that coincides with the
coefficient's own one. -/
theorem first_of_metBy? {locations : List α} {own : α} {i : Nat}
    (here : locations[i]? = some own) {met : Coincidence}
    (found : metBy? locations (own, i) = some met) :
    met.own = i ∧ Coincide locations i met.other ∧
      ∀ j, Coincide locations i j → met.other ≤ j := by
  obtain ⟨other, first, rfl⟩ := Option.map_eq_some_iff.mp found
  obtain ⟨zero, before, after, split, earlier⟩ := List.find?_eq_some_iff_append.mp first
  obtain ⟨there, apart⟩ := mem_others_iff.mp (List.mem_of_find?_eq_some first)
  refine ⟨rfl, ⟨Ne.symm apart, own, other.1, here, there, zero⟩, ?_⟩
  rintro j ⟨different, a, b, left, right, vanishes⟩
  obtain rfl : a = own := Option.some.inj (left.symm.trans here)
  apply Nat.le_of_not_lt
  intro less
  have ascending : (others locations i).Pairwise fun earlier later => earlier.2 < later.2 :=
    (zipIdx_ascending locations).filter _
  have present : (b, j) ∈ others locations i := mem_others_iff.mpr ⟨right, Ne.symm different⟩
  simp only [split] at ascending present
  have missed := earlier (b, j) (before_of_ascending ascending present less)
  simp only [vanishes, Bool.not_true, Bool.false_eq_true] at missed

theorem coincidence?_eq_none_iff {locations : List α} :
    coincidence? locations = none ↔ ∀ i j, ¬ Coincide locations i j := by
  simp only [coincidence?, List.findSome?_eq_none_iff]
  constructor
  · intro none i j coincide
    have ⟨_, a, _, here, _⟩ := coincide
    have missed := none (a, i) (List.mem_zipIdx_iff_getElem?.mpr here)
    exact (metBy?_eq_none_iff here).mp missed j coincide
  · rintro none ⟨own, i⟩ member
    exact (metBy?_eq_none_iff (List.mem_zipIdx_iff_getElem?.mp member)).mpr (none i)

/-- The search finds the first sample that coincides with any other, and the first of the samples
that it coincides with. -/
theorem first_of_coincidence? {locations : List α} {met : Coincidence}
    (found : coincidence? locations = some met) :
    Coincide locations met.own met.other ∧
      (∀ i j, Coincide locations i j → met.own ≤ i) ∧
      ∀ j, Coincide locations met.own j → met.other ≤ j := by
  obtain ⟨before, ⟨own, i⟩, after, split, here, earlier⟩ := List.findSome?_eq_some_iff.mp found
  have present : locations[i]? = some own := by
    apply List.mk_mem_zipIdx_iff_getElem?.mp
    rw [split]
    exact List.mem_append_right _ List.mem_cons_self
  obtain ⟨rfl, coincide, least⟩ := first_of_metBy? present here
  refine ⟨coincide, ?_, least⟩
  intro i' j coincide'
  apply Nat.le_of_not_lt
  intro less
  have ⟨_, a, _, there, _⟩ := coincide'
  have ascending := zipIdx_ascending locations
  have member : (a, i') ∈ locations.zipIdx := List.mem_zipIdx_iff_getElem?.mpr there
  rw [split] at ascending member
  have missed := earlier (a, i') (before_of_ascending ascending member less)
  exact (metBy?_eq_none_iff there).mp missed j coincide'

/-- No other two samples that coincide come before the ones that the search finds. -/
theorem least_of_coincidence? {locations : List α} {met : Coincidence}
    (found : coincidence? locations = some met) {i j : Nat} (coincide : Coincide locations i j) :
    met.own < i ∨ met.own = i ∧ met.other ≤ j := by
  obtain ⟨-, leastOwn, leastOther⟩ := first_of_coincidence? found
  rcases Nat.lt_or_eq_of_le (leastOwn i j coincide) with earlier | rfl
  · exact .inl earlier
  · exact .inr ⟨rfl, leastOther j coincide⟩

end Basis

end Interpolant
