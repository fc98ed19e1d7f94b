import Interpolant.Proofs.Coincidence

/-! # What an evaluation leaves behind

`Table.accumulate` adds block after block to the buffer and stops at the first missing coefficient,
when sums of earlier samples are already written. Its two outcomes are told apart by
`Basis.coincidence?`, which knows neither the query point nor the values nor the buffer.
-/

namespace Interpolant

universe u

variable {α : Type u} [Scalar α]

namespace Basis

/-- The product of all factors of a coefficient, whatever their divisors are. -/
def weight (x own : α) (others : List (α × Nat)) : α :=
  others.foldl (fun product sample => product * (x - sample.1) / (own - sample.1)) 1

private theorem extend_foldlM (x own product : α) (others : List (α × Nat)) :
    others.foldlM (extend x own) product =
      match vanishing? own others with
      | some other => .error other.2
      | none => .ok (others.foldl
          (fun product sample => product * (x - sample.1) / (own - sample.1)) product) := by
  induction others generalizing product with
  | nil => rfl
  | cons sample rest ih =>
    rw [List.foldlM_cons]
    cases zero : own - sample.1 == 0 with
    | true => simp only [extend, zero, vanishing?, List.find?_cons, ↓reduceIte]; rfl
    | false =>
      simp only [extend, zero, vanishing?, List.find?_cons, Bool.false_eq_true, ↓reduceIte]
      exact ih _

/-- A coefficient is missing exactly if a coincidence is met in it. -/
theorem coefficient_eq (x own : α) (locations : List α) (i : Nat) :
    coefficient x own (others locations i) =
      match metBy? locations (own, i) with
      | some met => .error met.other
      | none => .ok (weight x own (others locations i)) := by
  rw [coefficient, extend_foldlM, metBy?]
  cases vanishing? own (others locations i) <;> rfl

end Basis

namespace Table

/-- The sums with the block of one more sample, weighted at `x`. -/
def addSample (table : Table α) (x : α) (sums : List α) (sample : (α × Nat) × List α) : List α :=
  Basis.addBlock (Basis.weight x sample.1.1 (Basis.others table.locations sample.1.2)) sums sample.2

/-- The sum of all blocks, weighted at `x`. -/
def value (table : Table α) (x : α) : List α :=
  table.samples.foldl (table.addSample x) (List.replicate table.stride 0)

omit [Scalar α] in
theorem samples_eq_map (table : Table α) :
    table.samples = table.locations.zipIdx.map fun sample => (sample, table.block sample.2) := by
  have blocks : table.blocks = table.locations.zipIdx.map (table.block ∘ Prod.snd) := by
    rw [← List.map_map, List.zipIdx_map_snd, ← List.range_eq_range']
    rfl
  rw [samples, blocks, ← List.map_prod_left_eq_zip]
  rfl

omit [Scalar α] in
theorem samples_map_fst (table : Table α) :
    table.samples.map Prod.fst = table.locations.zipIdx := by
  rw [samples_eq_map, List.map_map]
  exact List.map_id _

omit [Scalar α] in
theorem mem_samples_iff {table : Table α} {own : α} {i : Nat} {block : List α} :
    ((own, i), block) ∈ table.samples ↔ table.locations[i]? = some own ∧ block = table.block i := by
  simp only [samples_eq_map, List.mem_map, Prod.mk.injEq, Prod.exists,
    List.mem_zipIdx_iff_getElem?]
  constructor
  · rintro ⟨_, _, here, ⟨rfl, rfl⟩, rfl⟩
    exact ⟨here, rfl⟩
  · rintro ⟨here, rfl⟩
    exact ⟨_, _, here, ⟨rfl, rfl⟩, rfl⟩

theorem addSample_getElem? (table : Table α) (x own : α) (i : Nat) {sums block : List α}
    {s y : α} {k : Nat} (sum : sums[k]? = some s) (entry : block[k]? = some y) :
    (table.addSample x sums ((own, i), block))[k]? =
      some (s + Basis.weight x own (Basis.others table.locations i) * y) := by
  simp only [addSample, Basis.addBlock, List.getElem?_zipWith, sum, entry]

/-- The sums written before a coincidence is met do not survive it. -/
theorem accumulate_of_met (table : Table α) (x : α) {samples : List ((α × Nat) × List α)}
    {met : Coincidence} (sums : List α)
    (found : (samples.map Prod.fst).findSome? (Basis.metBy? table.locations) = some met) :
    table.accumulate x samples sums = table.erased met := by
  induction samples generalizing sums with
  | nil => contradiction
  | cons sample rest ih =>
    obtain ⟨⟨own, i⟩, block⟩ := sample
    rw [accumulate, Basis.coefficient_eq]
    simp only [List.map_cons, List.findSome?_cons] at found
    cases here : Basis.metBy? table.locations (own, i) with
    | none =>
      rw [here] at found
      exact ih _ found
    | some other =>
      rw [here] at found
      obtain rfl := Option.some.inj found
      obtain ⟨-, -, rfl⟩ := Option.map_eq_some_iff.mp here
      rfl

theorem accumulate_of_unmet (table : Table α) (x : α) {samples : List ((α × Nat) × List α)}
    (sums : List α)
    (none : (samples.map Prod.fst).findSome? (Basis.metBy? table.locations) = none) :
    table.accumulate x samples sums = .done (samples.foldl (table.addSample x) sums) := by
  induction samples generalizing sums with
  | nil => rfl
  | cons sample rest ih =>
    obtain ⟨⟨own, i⟩, block⟩ := sample
    simp only [List.map_cons, List.findSome?_cons] at none
    cases here : Basis.metBy? table.locations (own, i) with
    | some other => simp only [here, reduceCtorEq] at none
    | none =>
      rw [here] at none
      rw [accumulate, Basis.coefficient_eq, here]
      exact ih _ none

theorem evaluate_of_wrong_room {table : Table α} {out : List α}
    (wrong : out.length ≠ table.stride) (x : α) :
    table.evaluate x out = .refused .outputSize out :=
  if_pos wrong

theorem evaluate_of_coincidence {table : Table α} {out : List α} {met : Coincidence}
    (room : out.length = table.stride)
    (found : Basis.coincidence? table.locations = some met) (x : α) :
    table.evaluate x out = table.erased met := by
  rw [evaluate, if_neg (not_not_intro room)]
  apply accumulate_of_met
  rw [samples_map_fst]
  exact found

theorem evaluate_of_distinct {table : Table α} {out : List α}
    (room : out.length = table.stride) (none : Basis.coincidence? table.locations = none)
    (x : α) : table.evaluate x out = .done (table.value x) := by
  rw [evaluate, if_neg (not_not_intro room)]
  apply accumulate_of_unmet
  rw [samples_map_fst]
  exact none

omit [Scalar α] in
theorem room_nil {out : List α} {stride : Nat}
    (room : out.length = ([] : List α).length * stride) : out = [] := by
  rw [List.length_nil, Nat.zero_mul] at room
  exact List.eq_nil_of_length_eq_zero room

omit [Scalar α] in
/-- A buffer with a block for each of several queries has one for the first and one for each of the
others. -/
theorem room_cons {x : α} {queries out : List α} {stride : Nat}
    (room : out.length = (x :: queries).length * stride) :
    stride ≤ out.length ∧ (out.take stride).length = stride ∧
      (out.drop stride).length = queries.length * stride := by
  rw [List.length_cons, Nat.succ_mul] at room
  have enough : stride ≤ out.length := by omega
  refine ⟨enough, List.length_take_of_le enough, ?_⟩
  rw [List.length_drop]
  omega

/-- Queries to samples of which two coincide: the first of them ends the run. -/
theorem fill_of_coincidence {table : Table α} {met : Coincidence}
    (found : Basis.coincidence? table.locations = some met) (x : α) (queries : List α)
    {out : List α} (room : table.stride ≤ out.length) :
    table.fill (x :: queries) out =
      ⟨.error met.fault, List.replicate table.stride 0 ++ out.drop table.stride, [met.event]⟩ := by
  rw [fill, evaluate_of_coincidence (List.length_take_of_le room) found]
  rfl

/-- Queries to samples of which no two coincide: none of them fails. -/
theorem fill_of_distinct {table : Table α} (none : Basis.coincidence? table.locations = none)
    {queries out : List α} (room : out.length = queries.length * table.stride) :
    table.fill queries out = .done (queries.flatMap table.value) := by
  induction queries generalizing out with
  | nil =>
    rw [room_nil room]
    rfl
  | cons x rest ih =>
    obtain ⟨-, chunk, remaining⟩ := room_cons room
    rw [fill, evaluate_of_distinct chunk none, Written.andThen]
    simp only [Written.done, ih remaining, List.nil_append, List.flatMap_cons]

theorem evaluateAll_cases (table : Table α) (queries out : List α) :
    table.evaluateAll queries out = .refused .dimensionMismatch out ∨
      out.length = queries.length * table.stride ∧
        table.evaluateAll queries out = table.fill queries out := by
  rw [evaluateAll]
  split
  · next fits => exact .inr ⟨(Size.mul?_eq_some_iff.mp fits).1.symm, rfl⟩
  · exact .inl rfl

omit [Scalar α] in
private theorem sample_block_length {table : Table α} (shape : table.Aligned)
    {sample : (α × Nat) × List α} (member : sample ∈ table.samples) :
    sample.2.length = table.stride := by
  obtain ⟨here, same⟩ := mem_samples_iff.mp member
  rw [same]
  exact block_length shape (List.getElem?_eq_some_iff.mp here).1

theorem value_length {table : Table α} (shape : table.Aligned) (x : α) :
    (table.value x).length = table.stride := by
  suffices ∀ (samples : List ((α × Nat) × List α)) (sums : List α), sums.length = table.stride →
      (∀ sample ∈ samples, sample.2.length = table.stride) →
      (samples.foldl (table.addSample x) sums).length = table.stride from
    this _ _ List.length_replicate fun _ member => sample_block_length shape member
  intro samples
  induction samples with
  | nil => exact fun _ length _ => length
  | cons sample rest ih =>
    intro sums length full
    have same := (full sample List.mem_cons_self).trans length.symm
    refine ih _ ?_ fun other member => full other (List.mem_cons_of_mem _ member)
    exact (Basis.addBlock_length same).trans length

end Table

namespace Lagrange

@[simp] theorem interpolate_checked (x : α) (table : CheckedTable α) (out : List α) :
    interpolate x table out = table.evaluate x out := by
  rw [interpolate, table.checked_eq]

/-- Whatever shape a table has, it is refused, or it passes the check and is evaluated. -/
theorem refused_or_checked (x : α) (table : Table α) (out : List α) :
    (∃ fault, fault.IsInvalidInput ∧ interpolate x table out = .refused fault out) ∨
      ∃ view : CheckedTable α, view.toTable = table ∧
        interpolate x table out = view.evaluate x out := by
  cases passed : table.checked with
  | ok view =>
    obtain rfl := Table.checked_eq_ok_iff.mp passed
    exact .inr ⟨view, rfl, interpolate_checked x view out⟩
  | error fault =>
    refine .inl ⟨fault, Table.isInvalidInput_of_check (Table.checked_eq_error_iff.mp passed), ?_⟩
    rw [interpolate, passed]

end Lagrange

end Interpolant
