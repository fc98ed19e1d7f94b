import Interpolant.Size
import Interpolant.Fault

/-! # Sample tables

A table pairs sample locations with values. The values are one flat list, in which sample `i` owns
the `stride` consecutive entries that start at `i * stride`: its block. Locations and values come
from a caller, so a `Table` may have any shape; `Table.check` says whether its shape is one that
can be interpolated. A `CheckedTable` is a table that passed, or a part of a table whose blocks are
in order.
-/

namespace Interpolant

universe u

/-- Sample locations, and for every sample a block of `stride` values. -/
structure Table (α : Type u) where
  /-- Where the samples were taken. -/
  locations : List α
  /-- The blocks of all samples, one after another. -/
  values : List α
  /-- How many values a block has. -/
  stride : Nat

namespace Table

variable {α : Type u}

/-- How many samples there are. -/
def size (table : Table α) : Nat := table.locations.length

/-- Whether there are no samples at all. -/
def isEmpty (table : Table α) : Bool := table.locations.isEmpty

/-- The degree of the polynomial through all samples. -/
def degree (table : Table α) : Nat := table.size - 1

/-- Every sample has a block, of at least one value, and nothing is left over. -/
def Aligned (table : Table α) : Prop :=
  0 < table.stride ∧ Size.mul? table.size table.stride = some table.values.length

instance (table : Table α) : Decidable table.Aligned :=
  inferInstanceAs (Decidable (_ ∧ _))

/-- The shape that an interpolation through all samples needs. -/
structure WellFormed (table : Table α) : Prop where
  stride_pos : 0 < table.stride
  two_le_size : 2 ≤ table.size
  values_length : table.values.length = table.size * table.stride
  values_length_le : table.values.length ≤ Size.largest

/-- A missing stride is reported first, then a lack of samples, then values that do not fit. -/
def check (table : Table α) : Except Fault Unit :=
  if table.stride = 0 then .error .zeroStride
  else if table.size < 2 then .error .tooFewSamples
  else if Size.mul? table.size table.stride ≠ some table.values.length then
    .error .dimensionMismatch
  else .ok ()

/-- The values of sample `i`. -/
def block (table : Table α) (i : Nat) : List α :=
  (table.values.drop (i * table.stride)).take table.stride

/-- The values of every sample, in the order of the samples. -/
def blocks (table : Table α) : List (List α) :=
  (List.range table.size).map table.block

/-- The `count` samples from position `first` on, with their blocks. -/
def slice (table : Table α) (first count : Nat) : Table α where
  locations := (table.locations.drop first).take count
  values := (table.values.drop (first * table.stride)).take (count * table.stride)
  stride := table.stride

theorem aligned_iff (table : Table α) :
    table.Aligned ↔ 0 < table.stride ∧ table.values.length = table.size * table.stride ∧
      table.values.length ≤ Size.largest := by
  simp only [Aligned, Size.mul?_eq_some_iff, eq_comm (a := table.size * table.stride)]

theorem WellFormed.aligned {table : Table α} (shape : table.WellFormed) : table.Aligned :=
  table.aligned_iff.mpr ⟨shape.stride_pos, shape.values_length, shape.values_length_le⟩

theorem Aligned.wellFormed {table : Table α} (shape : table.Aligned) (size : 2 ≤ table.size) :
    table.WellFormed := by
  obtain ⟨stride, values, word⟩ := table.aligned_iff.mp shape
  exact ⟨stride, size, values, word⟩

theorem Aligned.size_le_largest {table : Table α} (shape : table.Aligned) :
    table.size ≤ Size.largest := by
  obtain ⟨stride, values, word⟩ := table.aligned_iff.mp shape
  exact Nat.le_trans (values ▸ Nat.le_mul_of_pos_right _ stride) word

theorem check_eq_ok_iff (table : Table α) : table.check = .ok () ↔ table.WellFormed := by
  constructor
  · intro passed
    unfold check at passed
    split at passed
    · contradiction
    split at passed
    · contradiction
    split at passed
    · contradiction
    next stride size fits =>
      obtain ⟨product, bound⟩ := Size.mul?_eq_some_iff.mp (Decidable.not_not.mp fits)
      exact ⟨Nat.pos_of_ne_zero stride, Nat.le_of_not_lt size, product.symm, bound⟩
  · intro shape
    have stride := Nat.ne_of_gt shape.stride_pos
    have size := Nat.not_lt.mpr shape.two_le_size
    have fits := shape.aligned.2
    simp only [check, stride, size, fits, ↓reduceIte, ne_eq, not_true_eq_false]

/-- Every fault of a check is about shapes. -/
theorem isInvalidInput_of_check {table : Table α} {fault : Fault}
    (failed : table.check = .error fault) : fault.IsInvalidInput := by
  unfold check at failed
  split at failed
  · obtain rfl := Except.error.inj failed; trivial
  split at failed
  · obtain rfl := Except.error.inj failed; trivial
  split at failed
  · obtain rfl := Except.error.inj failed; trivial
  contradiction

theorem block_length {table : Table α} {i : Nat} (shape : table.Aligned) (bound : i < table.size) :
    (table.block i).length = table.stride := by
  have room : (i + 1) * table.stride ≤ table.values.length :=
    (table.aligned_iff.mp shape).2.1 ▸ Nat.mul_le_mul_right _ bound
  rw [Nat.add_mul, Nat.one_mul] at room
  simp only [block, List.length_take, List.length_drop]
  omega

theorem block_getElem? (table : Table α) {i k : Nat} (inside : k < table.stride) :
    (table.block i)[k]? = table.values[i * table.stride + k]? := by
  rw [block, List.getElem?_take_of_lt inside, List.getElem?_drop]

theorem exists_block_entry {table : Table α} (shape : table.Aligned) {i k : Nat}
    (bound : i < table.size) (inside : k < table.stride) :
    ∃ y, (table.block i)[k]? = some y ∧ table.values[i * table.stride + k]? = some y := by
  have room : k < (table.block i).length := block_length shape bound ▸ inside
  refine ⟨_, List.getElem?_eq_getElem room, ?_⟩
  rw [← table.block_getElem? inside, List.getElem?_eq_getElem room]

@[simp] theorem blocks_length (table : Table α) : table.blocks.length = table.size := by
  simp only [blocks, List.length_map, List.length_range]

/-- A slice keeps the locations between two positions, and the values between the places where the
blocks of these positions begin. -/
theorem slice_eq_extract (table : Table α) (first count : Nat) :
    table.slice first count =
      ⟨table.locations.extract first (first + count),
        table.values.extract (first * table.stride) ((first + count) * table.stride),
        table.stride⟩ := by
  rw [List.extract_eq_take_drop, List.extract_eq_take_drop, ← Nat.sub_mul, Nat.add_sub_cancel_left,
    slice]

@[simp] theorem slice_size {table : Table α} {first count : Nat}
    (inside : first + count ≤ table.size) : (table.slice first count).size = count := by
  rw [size] at inside
  rw [size, slice, List.length_take, List.length_drop]
  omega

theorem slice_wellFormed {table : Table α} {first count : Nat} (shape : table.Aligned)
    (two : 2 ≤ count) (inside : first + count ≤ table.size) :
    (table.slice first count).WellFormed := by
  obtain ⟨stride, values, word⟩ := table.aligned_iff.mp shape
  have size := slice_size inside
  have room : first * table.stride + count * table.stride ≤ table.values.length := by
    rw [← Nat.add_mul, values]
    exact Nat.mul_le_mul_right _ inside
  have length : (table.slice first count).values.length = count * table.stride := by
    rw [slice, List.length_take, List.length_drop]
    omega
  refine ⟨stride, size.symm ▸ two, ?_, by omega⟩
  rw [size, length]
  rfl

end Table

/-- A table of a shape that can be interpolated. -/
structure CheckedTable (α : Type u) extends Table α where
  /-- The shape is a proper one. -/
  wellFormed : toTable.WellFormed

variable {α : Type u}

namespace Table

/-- The table as one that passed the check. -/
def checked (table : Table α) : Except Fault (CheckedTable α) :=
  match passed : table.check with
  | .ok () => .ok ⟨table, table.check_eq_ok_iff.mp passed⟩
  | .error fault => .error fault

theorem checked_of_wellFormed {table : Table α} (shape : table.WellFormed) :
    table.checked = .ok ⟨table, shape⟩ := by
  unfold checked
  split
  · rfl
  · next failed =>
    rw [table.check_eq_ok_iff.mpr shape] at failed
    contradiction

theorem checked_eq_ok_iff {table : Table α} {view : CheckedTable α} :
    table.checked = .ok view ↔ view.toTable = table := by
  constructor
  · intro passed
    unfold checked at passed
    split at passed
    · exact congrArg CheckedTable.toTable (Except.ok.inj passed).symm
    · contradiction
  · rintro rfl
    exact checked_of_wellFormed view.wellFormed

theorem checked_eq_error_iff {table : Table α} {fault : Fault} :
    table.checked = .error fault ↔ table.check = .error fault := by
  unfold checked
  split
  · next passed => exact ⟨nofun, fun failed => nomatch passed.symm.trans failed⟩
  · next failed => rw [failed, Except.error.injEq, Except.error.injEq]

theorem WellFormed.exists_checked {table : Table α} (shape : table.WellFormed) :
    ∃ checked : CheckedTable α, checked.toTable = table :=
  ⟨⟨table, shape⟩, rfl⟩

/-- At least two samples of a table whose blocks are in order, with their blocks. -/
def Aligned.part {table : Table α} (shape : table.Aligned) {first count : Nat} (two : 2 ≤ count)
    (inside : first + count ≤ table.size) : CheckedTable α :=
  ⟨table.slice first count, slice_wellFormed shape two inside⟩

end Table

namespace CheckedTable

instance : CoeOut (CheckedTable α) (Table α) := ⟨toTable⟩

theorem aligned (table : CheckedTable α) : table.Aligned := table.wellFormed.aligned

theorem two_le_size (table : CheckedTable α) : 2 ≤ table.size := table.wellFormed.two_le_size

/-- A table that was checked passes the check again, and nothing is changed by it. -/
@[simp] theorem checked_eq (table : CheckedTable α) : table.checked = .ok table :=
  Table.checked_of_wellFormed table.wellFormed

end CheckedTable

end Interpolant
