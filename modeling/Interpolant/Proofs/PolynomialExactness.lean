import Interpolant.Proofs.Evaluation
import Interpolant.Proofs.OrderedScalar
import Mathlib.LinearAlgebra.Lagrange

/-! # Exactness on polynomials

In exact arithmetic the weights of an evaluation are the values of the Lagrange basis polynomials,
so the weighted sum of the blocks is, component by component, the value of the one polynomial of
least degree through all samples. Neither the order of the samples nor the position of the query
among them matters.
-/

namespace Interpolant

open Polynomial

universe u

variable {K : Type u} [Field K] [LinearOrder K]

namespace Basis

private theorem weight_eq_prod (x own : K) (others : List (K × ℕ)) :
    weight x own others = (others.map fun sample => (x - sample.1) / (own - sample.1)).prod := by
  suffices ∀ product : K, others.foldl
      (fun product sample => product * (x - sample.1) / (own - sample.1)) product =
      product * (others.map fun sample => (x - sample.1) / (own - sample.1)).prod from
    (this 1).trans (one_mul _)
  induction others with
  | nil => intro product; exact (mul_one product).symm
  | cons sample rest ih =>
    intro product
    rw [List.foldl_cons, ih, List.map_cons, List.prod_cons, ← mul_assoc, mul_div_assoc]

omit [LinearOrder K] in
private theorem zipIdx_eq_map (locations : List K) :
    locations.zipIdx = (List.range locations.length).map fun i => (locations.getD i 0, i) := by
  apply List.ext_getElem (by simp)
  intro i bound _
  have inside : i < locations.length := by simpa using bound
  simp [List.getElem?_eq_getElem inside]

/-- A weight is the value of a basis polynomial. -/
theorem weight_eq_eval_basis (x : K) (locations : List K) (i : ℕ) :
    weight x (locations.getD i 0) (others locations i) =
      (Lagrange.basis (Finset.range locations.length) (fun j => locations.getD j 0) i).eval x := by
  have indices : ((List.range locations.length).filter fun j => j != i).toFinset =
      (Finset.range locations.length).erase i := by
    ext j
    simp [and_comm]
  rw [weight_eq_prod, others, zipIdx_eq_map, List.filter_map, List.map_map, Lagrange.basis,
    eval_prod, ← indices, List.prod_toFinset _ (List.nodup_range.filter _)]
  congr 1
  apply List.map_congr_left
  intro j _
  simp only [Function.comp_apply, Lagrange.basisDivisor, eval_mul, eval_C, eval_sub, eval_X]
  exact div_eq_inv_mul _ _

theorem coincidence?_eq_none_of_nodup {locations : List K} (distinct : locations.Nodup) :
    coincidence? locations = none := by
  rw [coincidence?_eq_none_iff]
  rintro i j ⟨apart, a, b, left, right, zero⟩
  obtain ⟨inside, rfl⟩ := List.getElem?_eq_some_iff.mp left
  obtain ⟨inside', rfl⟩ := List.getElem?_eq_some_iff.mp right
  exact apart ((distinct.getElem_inj_iff).mp (sub_eq_zero.mp (beq_iff_eq.mp zero)))

omit [LinearOrder K] in
private theorem getD_injOn {locations : List K} (distinct : locations.Nodup) :
    Set.InjOn (fun i => locations.getD i 0) (Finset.range locations.length) := by
  intro i inside j inside' same
  have left : i < locations.length := Finset.mem_range.mp inside
  have right : j < locations.length := Finset.mem_range.mp inside'
  simp only [List.getD_eq_getElem?_getD, List.getElem?_eq_getElem left,
    List.getElem?_eq_getElem right, Option.getD_some] at same
  exact distinct.getElem_inj_iff.mp same

end Basis

namespace Table

/-- A polynomial that takes the `k`-th value of every sample at the location of that sample. -/
def PassesThrough (table : Table K) (k : ℕ) (p : K[X]) : Prop :=
  ∀ i a, table.locations[i]? = some a → table.values[i * table.stride + k]? = some (p.eval a)

private theorem foldl_addSample_getElem? (table : Table K) (x : K) (k : ℕ) (entry : ℕ → K)
    {indices : List ℕ} (entries : ∀ i ∈ indices, (table.block i)[k]? = some (entry i))
    {sums : List K} {s : K} (sum : sums[k]? = some s) :
    ((indices.map fun i => ((table.locations.getD i 0, i), table.block i)).foldl
      (table.addSample x) sums)[k]? =
      some (s + (indices.map fun i =>
        Basis.weight x (table.locations.getD i 0) (Basis.others table.locations i) *
          entry i).sum) := by
  induction indices generalizing sums s with
  | nil => simpa using sum
  | cons i rest ih =>
    have step := table.addSample_getElem? x (table.locations.getD i 0) i sum
      (entries i List.mem_cons_self)
    rw [List.map_cons, List.foldl_cons,
      ih (fun other member => entries other (List.mem_cons_of_mem _ member)) step,
      List.map_cons, List.sum_cons, add_assoc]

omit [LinearOrder K] in
private theorem samples_eq_map_range (table : Table K) :
    table.samples = (List.range table.size).map
      fun i => ((table.locations.getD i 0, i), table.block i) := by
  rw [samples_eq_map, Basis.zipIdx_eq_map, List.map_map]
  rfl

omit [LinearOrder K] in
private theorem PassesThrough.entry {table : Table K} {k : ℕ} {p : K[X]}
    (through : table.PassesThrough k p) {i : ℕ} (inside : i < table.size) :
    table.values[i * table.stride + k]? = some (p.eval (table.locations.getD i 0)) := by
  have here : table.locations[i]? = some (table.locations.getD i 0) := by
    rw [List.getD_eq_getElem?_getD, List.getElem?_eq_getElem inside, Option.getD_some]
  exact through i _ here

/-- The weighted sum is the value of every polynomial through the samples whose degree is small
enough. -/
theorem value_of_passesThrough (x : K) {table : Table K} (distinct : table.locations.Nodup)
    {k : ℕ} (inside : k < table.stride) {p : K[X]} (small : p.degree < table.size)
    (through : table.PassesThrough k p) : (table.value x)[k]? = some (p.eval x) := by
  have entries : ∀ i ∈ List.range table.size,
      (table.block i)[k]? = some (p.eval (table.locations.getD i 0)) := by
    intro i member
    rw [table.block_getElem? inside, through.entry (List.mem_range.mp member)]
  have start : (List.replicate table.stride (0 : K))[k]? = some 0 :=
    List.getElem?_replicate_of_lt inside
  have basis : p = ∑ i ∈ Finset.range table.size, C (p.eval (table.locations.getD i 0)) *
      Lagrange.basis (Finset.range table.size) (fun j => table.locations.getD j 0) i := by
    have same := Lagrange.eq_interpolate (Basis.getD_injOn distinct) (f := p)
      (by rw [Finset.card_range]; exact small)
    rw [Lagrange.interpolate_apply] at same
    exact same
  rw [value, samples_eq_map_range, foldl_addSample_getElem? table x k _ entries start, zero_add]
  congr 1
  calc ((List.range table.size).map fun i =>
          Basis.weight x (table.locations.getD i 0) (Basis.others table.locations i) *
            p.eval (table.locations.getD i 0)).sum
    _ = ∑ i ∈ Finset.range table.size,
          (Lagrange.basis (Finset.range table.size) (fun j => table.locations.getD j 0) i).eval x *
            p.eval (table.locations.getD i 0) := by
        rw [← List.toFinset_range, List.sum_toFinset _ List.nodup_range, List.toFinset_range]
        simp only [Basis.weight_eq_eval_basis, size]
    _ = p.eval x := by
        conv_rhs => rw [basis, eval_finsetSum]
        simp only [eval_mul, eval_C, mul_comm]

omit [LinearOrder K] in
theorem degree_lt_size_iff (table : CheckedTable K) (p : K[X]) :
    p.degree < table.size ↔ p.natDegree ≤ table.degree := by
  have two := table.two_le_size
  rw [degree, natDegree_le_iff_degree_le]
  by_cases zero : p = 0
  · simp [zero]
  · rw [degree_eq_natDegree zero, Nat.cast_lt, Nat.cast_le]
    omega

omit [LinearOrder K] in
private theorem passesThrough_iff {table : CheckedTable K} {k : ℕ} (inside : k < table.stride)
    (p : K[X]) :
    table.PassesThrough k p ↔ ∀ i ∈ Finset.range table.size,
      p.eval (table.locations.getD i 0) = table.values.getD (i * table.stride + k) 0 := by
  constructor
  · intro through i member
    have entry := through.entry (Finset.mem_range.mp member)
    exact (congrArg (Option.getD · 0) entry).symm
  · intro values i a here
    obtain ⟨bound, rfl⟩ := List.getElem?_eq_some_iff.mp here
    have value := values i (Finset.mem_range.mpr bound)
    have room : i * table.stride + k < table.values.length := by
      rw [table.wellFormed.values_length]
      calc i * table.stride + k
        _ < i * table.stride + table.stride := Nat.add_lt_add_left inside _
        _ = (i + 1) * table.stride := (Nat.succ_mul _ _).symm
        _ ≤ table.size * table.stride := Nat.mul_le_mul_right _ bound
    simp only [List.getD_eq_getElem?_getD, here, List.getElem?_eq_getElem room,
      Option.getD_some] at value
    rw [List.getElem?_eq_getElem room, value]

omit [LinearOrder K] in
/-- One polynomial of small degree passes through the samples, and no other one does. -/
theorem existsUnique_passesThrough {table : CheckedTable K} (distinct : table.locations.Nodup)
    {k : ℕ} (inside : k < table.stride) :
    ∃! p : K[X], p.natDegree ≤ table.degree ∧ table.PassesThrough k p := by
  have unique (q : K[X]) := Lagrange.eq_interpolate_iff (Basis.getD_injOn distinct) (f := q)
    (r := fun i => table.values.getD (i * table.stride + k) 0)
  simp only [Finset.card_range] at unique
  simp only [← degree_lt_size_iff, passesThrough_iff inside]
  exact ⟨_, (unique _).mpr rfl, fun q small => (unique q).mp small⟩

end Table

/-- Evaluation through all samples succeeds for every query, and every component of the result is
the value there of the one polynomial that passes through that component of the samples and whose
degree is less than their number. -/
theorem Lagrange.interpolate_exact (x : K) (table : Table K) (out : List K)
    (shape : table.WellFormed) (distinct : table.locations.Nodup)
    (room : out.length = table.stride) :
    (Lagrange.interpolate x table out).result = .ok () ∧
      (Lagrange.interpolate x table out).out.length = table.stride ∧
      ∀ k < table.stride,
        (∃! p : K[X], p.natDegree ≤ table.degree ∧ table.PassesThrough k p) ∧
        ∀ p : K[X], p.natDegree ≤ table.degree → table.PassesThrough k p →
          (Lagrange.interpolate x table out).out[k]? = some (p.eval x) := by
  obtain ⟨table, rfl⟩ := shape.exists_checked
  have none := Basis.coincidence?_eq_none_of_nodup distinct
  rw [Lagrange.interpolate_checked, Table.evaluate_of_distinct room none]
  refine ⟨rfl, Table.value_length table.aligned x, ?_⟩
  intro k inside
  refine ⟨Table.existsUnique_passesThrough distinct inside, ?_⟩
  intro p small through
  exact Table.value_of_passesThrough x distinct inside
    ((Table.degree_lt_size_iff table p).mpr small) through

/-- Two parabolas, sampled at three locations out of order, are met between the locations. -/
theorem Lagrange.interpolate_exact_parabolas :
    (Lagrange.interpolate (3 / 2 : ℚ) ⟨[2, 0, 1], [4, 6, 0, 2, 1, 3], 2⟩ [7, 7]).result = .ok () ∧
      (Lagrange.interpolate (3 / 2 : ℚ) ⟨[2, 0, 1], [4, 6, 0, 2, 1, 3], 2⟩ [7, 7]).out =
        [9 / 4, 17 / 4] := by
  obtain ⟨success, length, values⟩ := Lagrange.interpolate_exact (3 / 2 : ℚ)
    ⟨[2, 0, 1], [4, 6, 0, 2, 1, 3], 2⟩ [7, 7] ⟨by decide, by decide, by decide, by decide⟩
    (by decide) rfl
  have square : Table.PassesThrough ⟨[2, 0, 1], [4, 6, 0, 2, 1, 3], 2⟩ 0 (X ^ 2 : ℚ[X]) := by
    rintro (_ | _ | _ | i) a here <;> cases here <;> norm_num
  have shifted :
      Table.PassesThrough ⟨[2, 0, 1], [4, 6, 0, 2, 1, 3], 2⟩ 1 (X ^ 2 + C 2 : ℚ[X]) := by
    rintro (_ | _ | _ | i) a here <;> cases here <;> norm_num
  have first := (values 0 (by decide)).2 _ (natDegree_X_pow_le 2) square
  have second := (values 1 (by decide)).2 (X ^ 2 + C 2) natDegree_X_pow_add_C.le shifted
  refine ⟨success, ?_⟩
  obtain ⟨a, b, same⟩ := List.length_eq_two.mp length
  rw [same] at first second ⊢
  simp only [List.getElem?_cons_zero, List.getElem?_cons_succ, Option.some.injEq, eval_add,
    eval_pow, eval_X, eval_C] at first second
  rw [first, second]
  norm_num

end Interpolant
