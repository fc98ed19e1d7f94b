import Interpolant.Proofs.Evaluation
import Interpolant.Proofs.Interleaving
import Interpolant.Proofs.WindowPosition

/-! # Components

A block holds one value for every component, and no component has a part in the value of another
one: whatever is interpolated from a table gives, in each component, what the same interpolation
gives from a table of that component alone. A table of interleaved columns has these columns as its
components.
-/

namespace Interpolant

universe u v

variable {α : Type u}

namespace Table

/-- The samples of `single` are those of `table`, each with nothing but its `k`-th value. -/
structure IsComponent (table : Table α) (k : Nat) (single : Table α) : Prop where
  inside : k < table.stride
  stride : single.stride = 1
  locations : single.locations = table.locations
  length : single.values.length = single.size
  entry : ∀ i < table.size, (single.block i)[0]? = (table.block i)[k]?

variable {table single : Table α} {k : Nat}

theorem IsComponent.aligned (component : table.IsComponent k single) (shape : table.Aligned) :
    single.Aligned := by
  obtain ⟨stride, values, word⟩ := table.aligned_iff.mp shape
  have fewer : table.size ≤ table.values.length := by
    rw [values]
    exact Nat.le_mul_of_pos_right _ stride
  have size : single.size = table.size := congrArg List.length component.locations
  refine single.aligned_iff.mpr ⟨?_, ?_, ?_⟩
  · rw [component.stride]
    exact Nat.one_pos
  · rw [component.length, component.stride, Nat.mul_one]
  · rw [component.length, size]
    exact Nat.le_trans fewer word

/-- A run of samples has the components of the whole table. -/
theorem IsComponent.slice (component : table.IsComponent k single) (first count : Nat) :
    (table.slice first count).IsComponent k (single.slice first count) where
  inside := component.inside
  stride := component.stride
  locations := by rw [Table.slice, Table.slice, component.locations]
  length := by
    have same : single.values.length = single.locations.length := component.length
    simp only [Table.slice, size, List.length_take, List.length_drop, component.stride, same,
      Nat.mul_one]
  entry i bound := by
    have within : i < count := Nat.lt_of_lt_of_le bound (List.length_take_le _ _)
    have place : first + i < table.size := by
      simp only [size, Table.slice, List.length_take, List.length_drop] at bound ⊢
      omega
    rw [slice_block within, slice_block within, component.entry _ place]

/-- A column is a component of the table of the interleaved columns. -/
theorem isComponent_interleaved {locations : List α} {columns : List (List α)}
    (full : ∀ column ∈ columns, column.length = locations.length) {column : List α}
    (here : columns[k]? = some column) :
    (⟨locations, (List.range locations.length).flatMap (Columns.row columns), columns.length⟩ :
      Table α).IsComponent k ⟨locations, column, 1⟩ where
  inside := (List.getElem?_eq_some_iff.mp here).1
  stride := rfl
  locations := rfl
  length := full column (List.mem_of_getElem? here)
  entry i bound := by
    rw [block_getElem? _ Nat.one_pos, block_getElem? _ (List.getElem?_eq_some_iff.mp here).1,
      Nat.mul_one, Nat.add_zero]
    exact (Columns.interleaved_getElem? full bound here).symm

end Table

/-- A call on a single value has the result and the log of a call on blocks, and if they succeed, it
leaves the `k`-th value of the block in its buffer. -/
structure Written.IsComponent (whole : Written α) (k : Nat) (alone : Written α) : Prop where
  result : alone.result = whole.result
  log : alone.log = whole.log
  value : whole.result = .ok () → ∃ y, whole.out[k]? = some y ∧ alone.out = [y]

namespace Written.IsComponent

variable {k : Nat}

theorem error (fault : Fault) (log : List Event) (out buffer : List α) :
    (⟨.error fault, out, log⟩ : Written α).IsComponent k ⟨.error fault, buffer, log⟩ :=
  ⟨rfl, rfl, nofun⟩

theorem done {block values : List α} (single : values.length = 1) (same : values[0]? = block[k]?) :
    (Written.done block).IsComponent k (Written.done values) := by
  obtain ⟨y, rfl⟩ := List.length_eq_one_iff.mp single
  exact ⟨rfl, rfl, fun _ => ⟨y, same.symm, rfl⟩⟩

theorem after {β : Type v} {first : Traced Fault β} {out buffer : List α}
    {next next' : β → Written α}
    (later : ∀ value, first.result = .ok value → (next value).IsComponent k (next' value)) :
    (Written.after first out next).IsComponent k (Written.after first buffer next') := by
  cases ran : first.result with
  | error fault =>
    rw [after_of_error _ _ ran, after_of_error _ _ ran]
    exact error fault first.log out buffer
  | ok value =>
    rw [after_of_ok _ _ ran, after_of_ok _ _ ran]
    obtain ⟨result, log, entry⟩ := later value ran
    exact ⟨result, congrArg (first.log ++ ·) log, entry⟩

end Written.IsComponent

variable [Scalar α] {table single : Table α} {k : Nat}

namespace Table

private theorem foldl_addSample_component (component : table.IsComponent k single) (x : α)
    {samples : List (α × Nat)} (inside : ∀ sample ∈ samples, sample.2 < table.size)
    {sums values : List α} (sum : values[0]? = sums[k]?) :
    ((samples.map fun sample => (sample, single.block sample.2)).foldl (single.addSample x)
        values)[0]? =
      ((samples.map fun sample => (sample, table.block sample.2)).foldl (table.addSample x)
        sums)[k]? := by
  induction samples generalizing sums values with
  | nil => exact sum
  | cons sample rest ih =>
    obtain ⟨head, tail⟩ := List.forall_mem_cons.mp inside
    refine ih tail ?_
    simp only [addSample, Basis.addBlock, List.getElem?_zipWith, sum, component.entry _ head,
      component.locations]

/-- The weights are the same in all components. -/
theorem IsComponent.value (component : table.IsComponent k single) (x : α) :
    (single.value x)[0]? = (table.value x)[k]? := by
  rw [Table.value, Table.value, samples_eq_map, samples_eq_map, component.locations]
  apply foldl_addSample_component component x
  · intro sample member
    exact (List.getElem?_eq_some_iff.mp (List.mem_zipIdx_iff_getElem?.mp member)).1
  · rw [component.stride, List.getElem?_replicate_of_lt component.inside]
    rfl

theorem IsComponent.evaluate (component : table.IsComponent k single) (shape : table.Aligned)
    {out buffer : List α} (room : out.length = table.stride) (one : buffer.length = 1) (x : α) :
    (table.evaluate x out).IsComponent k (single.evaluate x buffer) := by
  have room' : buffer.length = single.stride := one.trans component.stride.symm
  cases found : Basis.coincidence? table.locations with
  | some met =>
    have found' : Basis.coincidence? single.locations = some met := component.locations ▸ found
    rw [evaluate_of_coincidence room found, evaluate_of_coincidence room' found']
    exact .error _ _ _ _
  | none =>
    have none' : Basis.coincidence? single.locations = none := component.locations ▸ found
    rw [evaluate_of_distinct room found, evaluate_of_distinct room' none']
    exact .done ((value_length (component.aligned shape) x).trans component.stride)
      (component.value x)

end Table

/-- If the blocks are in order, only the number of samples is left to check. -/
theorem Lagrange.interpolate_of_aligned (shape : table.Aligned) (x : α) (out : List α) :
    interpolate x table out =
      if table.size < 2 then .refused .tooFewSamples out else table.evaluate x out := by
  split
  · next few =>
    have failed : table.check = .error .tooFewSamples := by
      simp only [Table.check, Nat.ne_of_gt shape.1, few, ↓reduceIte]
    rw [interpolate, Table.checked_eq_error_iff.mpr failed]
  · next enough =>
    exact interpolate_checked x ⟨table, shape.wellFormed (Nat.le_of_not_lt enough)⟩ out

namespace Chord

theorem interpolate_isComponent (component : table.IsComponent k single) (shape : table.Aligned)
    {out buffer : List α} (room : out.length = table.stride) (one : buffer.length = 1) (x : α) :
    (interpolate x table out).IsComponent k (interpolate x single buffer) := by
  have shape' := component.aligned shape
  have room' : buffer.length = single.stride := one.trans component.stride.symm
  have size : single.size = table.size := congrArg List.length component.locations
  by_cases pair : table.size = 2
  · obtain ⟨x₀, x₁, ends⟩ := List.length_eq_two.mp pair
    have ends' := component.locations.trans ends
    rw [interpolate_of_ends shape room ends, interpolate_of_ends shape' room' ends']
    split
    · exact .error _ _ _ _
    · refine .done ((blend_length shape' ends' _ _).trans component.stride) ?_
      simp only [blend, List.getElem?_zipWith, component.entry 0 (by omega),
        component.entry 1 (by omega)]
  · rw [interpolate_of_not_two pair, interpolate_of_not_two (size.trans_ne pair)]
    exact .error _ _ _ _

end Chord

namespace Method

theorem interpolate_isComponent (method : Method) (component : table.IsComponent k single)
    (shape : table.Aligned) {out buffer : List α} (room : out.length = table.stride)
    (one : buffer.length = 1) (x : α) :
    (method.interpolate x table out).IsComponent k (method.interpolate x single buffer) := by
  cases method with
  | lagrange =>
    have size : single.size = table.size := congrArg List.length component.locations
    rw [interpolate, Lagrange.interpolate_of_aligned shape,
      Lagrange.interpolate_of_aligned (component.aligned shape), size]
    split
    · exact .error _ _ _ _
    · exact component.evaluate shape room one x
  | linear => exact Chord.interpolate_isComponent component shape room one x

theorem interpolateWindowed_isComponent (method : Method) (component : table.IsComponent k single)
    (shape : table.Aligned) {out buffer : List α} (room : out.length = table.stride)
    (one : buffer.length = 1) (x : α) (degree : Nat) :
    (method.interpolateWindowed x table degree out).IsComponent k
      (method.interpolateWindowed x single degree buffer) := by
  rw [interpolateWindowed, interpolateWindowed, if_pos shape, if_pos (component.aligned shape),
    component.locations]
  refine .after fun window selected => ?_
  obtain ⟨-, two, inside⟩ := Window.bounds_of_select selected
  have part := (shape.part two inside).aligned
  exact method.interpolate_isComponent (component.slice window.first window.count) part room one x

/-- Equally long columns can be interleaved, and every interpolation from the table that they make
up treats each of them as if it were alone: it fails for the same reason as for any one column, or
it succeeds with the values that it gives for the single columns, each at its place. -/
theorem interpolate_interleaved (method : Method) (x : α) (degree : Nat) (locations : List α)
    (columns : List (List α)) (nonempty : columns ≠ [])
    (full : ∀ column ∈ columns, column.length = locations.length)
    (word : locations.length * columns.length ≤ Size.largest) :
    ∃ values, Columns.interleave columns = .ok values ∧
      ∀ out k column buffer, out.length = columns.length → columns[k]? = some column →
        buffer.length = 1 →
        let whole : Table α := ⟨locations, values, columns.length⟩
        let alone : Table α := ⟨locations, column, 1⟩
        (method.interpolate x whole out).IsComponent k (method.interpolate x alone buffer) ∧
          (method.interpolateWindowed x whole degree out).IsComponent k
            (method.interpolateWindowed x alone degree buffer) := by
  refine ⟨_, Columns.interleave_eq_ok nonempty full, ?_⟩
  intro out k column buffer room here one
  have length := BlockLayout.length_flatMap (Columns.uniform_row full)
  rw [List.length_range] at length
  have component := Table.isComponent_interleaved full here
  have shape : Table.Aligned ⟨locations, (List.range locations.length).flatMap
      (Columns.row columns), columns.length⟩ :=
    (Table.aligned_iff _).mpr ⟨List.length_pos_iff.mpr nonempty, length, length.trans_le word⟩
  exact ⟨method.interpolate_isComponent component shape room one x,
    method.interpolateWindowed_isComponent component shape room one x degree⟩

/-- A missing number in the second column does not get into the values of the first one. -/
theorem interpolate_interleaved_missing :
    let table : Table Float := ⟨[0, 1, 3], [2, 0 / 0, 5, 3, 1, 7], 2⟩
    let whole := lagrange.interpolateWindowed 2 table 2 [8, 9]
    let alone := lagrange.interpolateWindowed (2 : Float) ⟨[0, 1, 3], [2, 5, 1], 1⟩ 2 [7]
    alone.result = .ok () ∧ ∃ y, whole.out[0]? = some y ∧ alone.out = [y] := by
  intro table whole alone
  obtain ⟨values, interleaved, alike⟩ := interpolate_interleaved .lagrange (2 : Float) 2 [0, 1, 3]
    [[2, 5, 1], [0 / 0, 3, 7]] (by decide) (by decide) (by decide)
  obtain rfl : [2, 0 / 0, 5, 3, 1, 7] = values := Except.ok.inj interleaved
  obtain ⟨-, component⟩ := alike [8, 9] 0 [2, 5, 1] [7] rfl rfl rfl
  have success : whole.result = .ok () := by decide +kernel
  exact ⟨component.result.trans success, component.value success⟩

end Method

end Interpolant
