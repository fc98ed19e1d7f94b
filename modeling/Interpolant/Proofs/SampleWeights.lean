import Interpolant.Proofs.Outcome
import Interpolant.Proofs.RoundedScalar

/-! # Weights at the location of a sample

At the location of a sample its own coefficient is a product of ones, and every other coefficient
has a factor of zero. Rounding changes neither, so that the weighted sum of all blocks is the block
of that sample. Only an overflow can spoil this, and it never leaves another number: an infinity on
the way meets a zero or another infinity before the end and is lost.
-/

namespace Interpolant

universe u

open OrderedScalar RoundedScalar

namespace OrderedScalar

variable {α : Type u} [Scalar α] [OrderedScalar α]

/-- A number, but not a finite one: what an overflow leaves. -/
def IsInfinite (a : α) : Prop := IsNumber a ∧ ¬ IsFinite a

/-- The value is numerically equal to `b`, or it was lost and is no number at all. -/
def EqualUnless (lost : Prop) (a b : α) : Prop :=
  (a == b) = true ∨ ¬ IsNumber a ∧ lost

namespace EqualUnless

variable [RoundedScalar α] {lost : Prop} {a b y : α}

theorem one_mul (one : EqualUnless lost a 1) (finite : IsFinite y) : EqualUnless lost (a * y) y := by
  rcases one with one | ⟨missing, gone⟩
  · exact .inl (RoundedScalar.one_mul one (isNumber_of_isFinite finite))
  · exact .inr ⟨fun number => missing (number_of_mul number).1, gone⟩

theorem zero_mul (zero : EqualUnless lost a 0) (finite : IsFinite y) :
    EqualUnless lost (a * y) 0 := by
  rcases zero with zero | ⟨missing, gone⟩
  · exact .inl (RoundedScalar.zero_mul zero finite)
  · exact .inr ⟨fun number => missing (number_of_mul number).1, gone⟩

theorem zero_add (zero : EqualUnless lost a 0) (equal : EqualUnless lost b y) :
    EqualUnless lost (a + b) y := by
  rcases zero with zero | ⟨missing, gone⟩
  · rcases equal with equal | ⟨missing, gone⟩
    · exact .inl (beq_trans (RoundedScalar.zero_add zero (isNumber_of_beq equal)) equal)
    · exact .inr ⟨fun number => missing (number_of_add number).2, gone⟩
  · exact .inr ⟨fun number => missing (number_of_add number).1, gone⟩

theorem add_zero (equal : EqualUnless lost a y) (zero : EqualUnless lost b 0) :
    EqualUnless lost (a + b) y := by
  rcases equal with equal | ⟨missing, gone⟩
  · rcases zero with zero | ⟨missing, gone⟩
    · exact .inl (beq_trans (RoundedScalar.add_zero (isNumber_of_beq equal) zero) equal)
    · exact .inr ⟨fun number => missing (number_of_add number).2, gone⟩
  · exact .inr ⟨fun number => missing (number_of_add number).1, gone⟩

end EqualUnless

end OrderedScalar

variable {α : Type u} [Scalar α] [OrderedScalar α]

namespace Basis

/-- A coefficient with one more factor, whatever the divisor is. -/
def grow (x own : α) (product : α) (sample : α × Nat) : α :=
  product * (x - sample.1) / (own - sample.1)

/-- The running products of a coefficient, from one up to the coefficient itself. -/
def products (x own : α) (others : List (α × Nat)) : List α :=
  others.scanl (grow x own) 1

/-- In some coefficient a difference or a running product overflows. -/
def Overflows (x : α) (locations : List α) : Prop :=
  ∃ i own, locations[i]? = some own ∧
    ((∃ sample ∈ others locations i, IsInfinite (x - sample.1) ∨ IsInfinite (own - sample.1)) ∨
      ∃ product ∈ products x own (others locations i), IsInfinite product)

/-- A sample that a coefficient can have a factor for, where infinite differences are noticed. -/
structure Usable (lost : Prop) (x own : α) (sample : α × Nat) : Prop where
  queryFinite : IsFinite x
  ownFinite : IsFinite own
  otherFinite : IsFinite sample.1
  apart : ¬ (own == sample.1) = true
  noticed : IsInfinite (x - sample.1) ∨ IsInfinite (own - sample.1) → lost

variable [RoundedScalar α] {lost : Prop} {x own p : α} {sample : α × Nat}
  {others : List (α × Nat)}

namespace Usable

theorem isNumber_query (usable : Usable lost x own sample) : IsNumber (x - sample.1) :=
  isNumber_sub usable.queryFinite usable.otherFinite

theorem isNumber_gap (usable : Usable lost x own sample) : IsNumber (own - sample.1) :=
  isNumber_sub usable.ownFinite usable.otherFinite

/-- What is no number stays lost. -/
theorem grow_lost (missing : ¬ IsNumber p) : ¬ IsNumber (grow x own p sample) :=
  fun number => missing (number_of_mul (number_of_div number).1).1

/-- At a sample's own location every factor is one. -/
theorem grow_one (usable : Usable lost x own sample) (same : (x == own) = true)
    (one : EqualUnless lost p 1) : EqualUnless lost (grow x own p sample) 1 := by
  rcases one with one | ⟨missing, gone⟩
  · have equal : (x - sample.1 == own - sample.1) = true :=
      sub_congr same (isNumber_of_isFinite usable.otherFinite) usable.queryFinite usable.otherFinite
    have product : (p * (x - sample.1) == own - sample.1) = true :=
      beq_trans (one_mul one usable.isNumber_query) equal
    by_cases finite : IsFinite (own - sample.1)
    · exact .inl (div_self product finite (sub_not_beq_zero usable.apart))
    · refine .inr ⟨fun number => ?_, usable.noticed (.inr ⟨usable.isNumber_gap, finite⟩)⟩
      exact finite ((finite_of_div number).elim (isFinite_congr product).mp id)
  · exact .inr ⟨grow_lost missing, gone⟩

/-- A coefficient stays a number up to the first overflow. -/
theorem grow_number (usable : Usable lost x own sample) (number : IsNumber p ∨ lost)
    (noticed : IsInfinite p → lost) : IsNumber (grow x own p sample) ∨ lost := by
  by_cases gone : lost
  · exact .inr gone
  · have finite : IsFinite p :=
      by_contra fun infinite => gone (noticed ⟨number.resolve_right gone, infinite⟩)
    have query : IsFinite (x - sample.1) := by_contra fun infinite =>
      gone (usable.noticed (.inl ⟨usable.isNumber_query, infinite⟩))
    have gap : IsFinite (own - sample.1) := by_contra fun infinite =>
      gone (usable.noticed (.inr ⟨usable.isNumber_gap, infinite⟩))
    exact .inl (isNumber_div (isNumber_mul finite query) gap (sub_not_beq_zero usable.apart))

/-- At the location of another sample its factor is zero, and an infinity before it is lost. -/
theorem grow_vanishing (usable : Usable lost x own sample) (same : (x == sample.1) = true)
    (number : IsNumber p ∨ lost) (noticed : IsInfinite p → lost) :
    EqualUnless lost (grow x own p sample) 0 := by
  have zero : (x - sample.1 == 0) = true :=
    sub_beq_zero_iff.mpr ⟨usable.queryFinite, usable.otherFinite, same⟩
  by_cases finite : IsFinite p
  · exact .inl (zero_div (mul_zero finite zero) usable.isNumber_gap
      (sub_not_beq_zero usable.apart))
  · refine .inr ⟨fun product => finite (finite_of_mul_zero zero (number_of_div product).1), ?_⟩
    exact number.elim (fun number => noticed ⟨number, finite⟩) id

/-- A zero stays zero, and an infinity after it is lost. -/
theorem grow_zero (usable : Usable lost x own sample) (zero : EqualUnless lost p 0) :
    EqualUnless lost (grow x own p sample) 0 := by
  rcases zero with zero | ⟨missing, gone⟩
  · by_cases finite : IsFinite (x - sample.1)
    · exact .inl (zero_div (zero_mul zero finite) usable.isNumber_gap
        (sub_not_beq_zero usable.apart))
    · refine .inr ⟨fun product => ?_, usable.noticed (.inl ⟨usable.isNumber_query, finite⟩)⟩
      exact finite (finite_of_zero_mul zero (number_of_div product).1)
  · exact .inr ⟨grow_lost missing, gone⟩

end Usable

private theorem foldl_grow_one (same : (x == own) = true)
    (usable : ∀ sample ∈ others, Usable lost x own sample) (one : EqualUnless lost p 1) :
    EqualUnless lost (others.foldl (grow x own) p) 1 := by
  induction others generalizing p with
  | nil => exact one
  | cons sample rest ih =>
    obtain ⟨head, tail⟩ := List.forall_mem_cons.mp usable
    exact ih tail (head.grow_one same one)

private theorem foldl_grow_zero (usable : ∀ sample ∈ others, Usable lost x own sample)
    (zero : EqualUnless lost p 0) : EqualUnless lost (others.foldl (grow x own) p) 0 := by
  induction others generalizing p with
  | nil => exact zero
  | cons sample rest ih =>
    obtain ⟨head, tail⟩ := List.forall_mem_cons.mp usable
    exact ih tail (head.grow_zero zero)

private theorem foldl_grow_vanishing (usable : ∀ sample ∈ others, Usable lost x own sample)
    (noticed : ∀ product ∈ others.scanl (grow x own) p, IsInfinite product → lost)
    (member : sample ∈ others) (same : (x == sample.1) = true) (number : IsNumber p ∨ lost) :
    EqualUnless lost (others.foldl (grow x own) p) 0 := by
  induction others generalizing p with
  | nil => contradiction
  | cons other rest ih =>
    obtain ⟨head, tail⟩ := List.forall_mem_cons.mp usable
    rw [List.scanl_cons] at noticed
    obtain ⟨here, later⟩ := List.forall_mem_cons.mp noticed
    rw [List.foldl_cons]
    cases vanishes : x == other.1 with
    | true => exact foldl_grow_zero tail (head.grow_vanishing vanishes number here)
    | false =>
      have behind : sample ∈ rest := by
        refine (List.mem_cons.mp member).resolve_left fun first => ?_
        rw [← first, same] at vanishes
        contradiction
      exact ih tail later behind (head.grow_number number here)

omit [RoundedScalar α] in
private theorem usable_of_distinct {locations : List α} {i : Nat}
    (finite : ∀ a ∈ locations, IsFinite a) (distinct : ∀ i j, ¬ Repeats locations i j)
    (here : locations[i]? = some own) (query : IsFinite x) :
    ∀ sample ∈ Basis.others locations i, Usable (Overflows x locations) x own sample := by
  intro sample member
  obtain ⟨there, apart⟩ := mem_others_iff.mp member
  refine ⟨query, finite own (List.mem_of_getElem? here),
    finite sample.1 (List.mem_of_getElem? there), fun same => ?_,
    fun infinite => ⟨i, own, here, .inl ⟨sample, member, infinite⟩⟩⟩
  rcases Nat.lt_or_gt_of_ne apart with before | after
  · exact distinct sample.2 i ⟨before, _, _, there, here, beq_symm same⟩
  · exact distinct i sample.2 ⟨after, _, _, here, there, same⟩

variable {locations : List α} {i m : Nat} {a : α}

theorem weight_own (finite : ∀ a ∈ locations, IsFinite a)
    (distinct : ∀ i j, ¬ Repeats locations i j) (here : locations[i]? = some own)
    (same : (x == own) = true) :
    EqualUnless (Overflows x locations) (weight x own (Basis.others locations i)) 1 := by
  have query := (isFinite_congr same).mpr (finite own (List.mem_of_getElem? here))
  exact foldl_grow_one same (usable_of_distinct finite distinct here query)
    (.inl (isNumber_of_isFinite isFinite_one))

theorem weight_other (finite : ∀ a ∈ locations, IsFinite a)
    (distinct : ∀ i j, ¬ Repeats locations i j) (here : locations[i]? = some own)
    (there : locations[m]? = some a) (apart : m ≠ i) (same : (x == a) = true) :
    EqualUnless (Overflows x locations) (weight x own (Basis.others locations i)) 0 := by
  have query := (isFinite_congr same).mpr (finite a (List.mem_of_getElem? there))
  have member : (a, m) ∈ Basis.others locations i := mem_others_iff.mpr ⟨there, apart⟩
  refine foldl_grow_vanishing (usable_of_distinct finite distinct here query) ?_ member same
    (.inl (isNumber_of_isFinite isFinite_one))
  exact fun product running infinite => ⟨i, own, here, .inr ⟨product, running, infinite⟩⟩

end Basis

namespace Table

variable {lost : Prop} {table : Table α} {x : α} {k : Nat}

omit [Scalar α] [OrderedScalar α] in
/-- Every sample occurs once among the samples. -/
theorem samples_split {i : Nat} {own : α} (here : table.locations[i]? = some own) :
    ∃ before after, table.samples = before ++ ((own, i), table.block i) :: after ∧
      ∀ sample ∈ before ++ after, sample.1.2 ≠ i := by
  obtain ⟨before, after, split⟩ := List.append_of_mem (mem_samples_iff.mpr ⟨here, rfl⟩)
  refine ⟨before, after, split, fun sample member same => ?_⟩
  have positions : (table.samples.map fun sample => sample.1.2).Nodup := by
    change (table.samples.map (Prod.snd ∘ Prod.fst)).Nodup
    rw [← List.map_map, samples_map_fst, List.zipIdx_map_snd]
    exact List.nodup_range'
  rw [split, List.map_append, List.map_cons, List.nodup_middle, ← List.map_append] at positions
  exact (List.nodup_cons.mp positions).1 (List.mem_map.mpr ⟨sample, member, same⟩)

variable [RoundedScalar α]

private theorem foldl_addSample_zero {samples : List ((α × Nat) × List α)}
    (entries : ∀ sample ∈ samples, ∃ y, sample.2[k]? = some y ∧ IsFinite y)
    (weights : ∀ sample ∈ samples, EqualUnless lost
      (Basis.weight x sample.1.1 (Basis.others table.locations sample.1.2)) 0)
    {sums : List α} {s t : α} (sum : sums[k]? = some s) (equal : EqualUnless lost s t) :
    ∃ v, (samples.foldl (table.addSample x) sums)[k]? = some v ∧ EqualUnless lost v t := by
  induction samples generalizing sums s with
  | nil => exact ⟨s, sum, equal⟩
  | cons sample rest ih =>
    obtain ⟨⟨y, entry, finite⟩, entries⟩ := List.forall_mem_cons.mp entries
    obtain ⟨zero, weights⟩ := List.forall_mem_cons.mp weights
    exact ih entries weights (table.addSample_getElem? x sample.1.1 sample.1.2 sum entry)
      (equal.add_zero (zero.zero_mul finite))

/-- At the location of a sample the weighted sum of all blocks is the block of that sample. -/
theorem value_at_sample (shape : table.Aligned) (finite : ∀ a ∈ table.locations, IsFinite a)
    (values : ∀ y ∈ table.values, IsFinite y)
    (distinct : ∀ i j, ¬ Basis.Repeats table.locations i j) {m : Nat} {a : α}
    (here : table.locations[m]? = some a) (same : (x == a) = true) (inside : k < table.stride) :
    ∃ v y, (table.value x)[k]? = some v ∧ table.values[m * table.stride + k]? = some y ∧
      EqualUnless (Basis.Overflows x table.locations) v y := by
  obtain ⟨before, after, split, others⟩ := samples_split here
  have member {sample : (α × Nat) × List α} (present : sample ∈ before ++ after) :
      table.locations[sample.1.2]? = some sample.1.1 ∧ sample.2 = table.block sample.1.2 := by
    apply mem_samples_iff.mp
    rw [split]
    simp only [List.mem_append, List.mem_cons] at present ⊢
    tauto
  have entry {i : Nat} {own : α} (there : table.locations[i]? = some own) :
      ∃ y, (table.block i)[k]? = some y ∧ table.values[i * table.stride + k]? = some y ∧
        IsFinite y := by
    have bound : i < table.size := (List.getElem?_eq_some_iff.mp there).1
    obtain ⟨y, found, value⟩ := exists_block_entry shape bound inside
    exact ⟨y, found, value, values y (List.mem_of_getElem? value)⟩
  have entries : ∀ sample ∈ before ++ after, ∃ y, sample.2[k]? = some y ∧ IsFinite y := by
    intro sample present
    obtain ⟨there, block⟩ := member present
    obtain ⟨y, found, -, finite⟩ := entry there
    exact ⟨y, block ▸ found, finite⟩
  have weights : ∀ sample ∈ before ++ after, EqualUnless (Basis.Overflows x table.locations)
      (Basis.weight x sample.1.1 (Basis.others table.locations sample.1.2)) 0 := fun sample present =>
    Basis.weight_other finite distinct (member present).1 here (others sample present).symm same
  obtain ⟨entriesBefore, entriesAfter⟩ := List.forall_mem_append.mp entries
  obtain ⟨weightsBefore, weightsAfter⟩ := List.forall_mem_append.mp weights
  have start : (List.replicate table.stride (0 : α))[k]? = some 0 :=
    List.getElem?_replicate_of_lt inside
  obtain ⟨y, found, value, yFinite⟩ := entry here
  obtain ⟨s, sum, zero⟩ := foldl_addSample_zero entriesBefore weightsBefore start
    (.inl (isNumber_of_isFinite isFinite_zero))
  have own := zero.zero_add ((Basis.weight_own finite distinct here same).one_mul yFinite)
  obtain ⟨v, sum', equal⟩ := foldl_addSample_zero entriesAfter weightsAfter
    (table.addSample_getElem? x a m sum found) own
  refine ⟨v, y, ?_, value, equal⟩
  rw [Table.value, split, List.foldl_append, List.foldl_cons]
  exact sum'

end Table

end Interpolant
