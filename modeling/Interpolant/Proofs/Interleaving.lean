import Interpolant.Columns
import Interpolant.Proofs.BlockLayout

/-! # Interleaved columns

Interleaving takes the rows of equally long columns one after another, so that the entries of a column
are as far apart as there are columns. Nothing is lost: the rows are the chunks of the flat list, and
the columns are the rows of these chunks again. Hence the flat list and the number of columns settle
the columns.
-/

namespace Interpolant.Columns

universe u

variable {α : Type u} {columns : List (List α)} {size : Nat}

/-- The columns of a flat list of rows: the `k`-th one has the `k`-th entry of every row. -/
def deinterleave (count : Nat) (values : List α) : List (List α) :=
  (List.range count).map (row (BlockLayout.chunks count values))

theorem row_length {i : Nat} (long : ∀ column ∈ columns, i < column.length) :
    (row columns i).length = columns.length := by
  induction columns with
  | nil => rfl
  | cons column rest ih =>
    obtain ⟨head, tail⟩ := List.forall_mem_cons.mp long
    rw [row, List.filterMap_cons, List.getElem?_eq_getElem head]
    exact congrArg (· + 1) (ih tail)

/-- Columns of one length are accepted, if there are any. -/
theorem interleave_eq_ok (nonempty : columns ≠ [])
    (full : ∀ column ∈ columns, column.length = size) :
    interleave columns = .ok ((List.range size).flatMap (row columns)) := by
  cases columns with
  | nil => contradiction
  | cons column rest =>
    obtain ⟨head, tail⟩ := List.forall_mem_cons.mp full
    have same : rest.all fun other => other.length = column.length := by
      simpa only [List.all_eq_true, decide_eq_true_eq, head] using tail
    rw [interleave, if_pos same, head]

/-- Columns of different lengths are not. -/
theorem interleave_of_uneven {a b : List α} (left : a ∈ columns) (right : b ∈ columns)
    (uneven : a.length ≠ b.length) : interleave columns = .error .dimensionMismatch := by
  cases columns with
  | nil => contradiction
  | cons column rest =>
    refine if_neg fun same => uneven ?_
    simp only [List.all_eq_true, decide_eq_true_eq] at same
    have full : ∀ other ∈ column :: rest, other.length = column.length :=
      List.forall_mem_cons.mpr ⟨rfl, same⟩
    rw [full a left, full b right]

theorem full_or_uneven (columns : List (List α)) :
    (∃ size, ∀ column ∈ columns, column.length = size) ∨
      ∃ a ∈ columns, ∃ b ∈ columns, a.length ≠ b.length := by
  cases columns with
  | nil => exact .inl ⟨0, nofun⟩
  | cons column rest =>
    by_cases full : ∀ other ∈ column :: rest, other.length = column.length
    · exact .inl ⟨_, full⟩
    · simp only [Classical.not_forall] at full
      obtain ⟨other, member, uneven⟩ := full
      exact .inr ⟨other, member, column, List.mem_cons_self, uneven⟩

theorem interleave_eq_ok_iff {values : List α} :
    interleave columns = .ok values ↔ columns ≠ [] ∧ ∃ size,
      (∀ column ∈ columns, column.length = size) ∧
        values = (List.range size).flatMap (row columns) := by
  constructor
  · intro accepted
    have nonempty : columns ≠ [] := by
      rintro rfl
      contradiction
    rcases full_or_uneven columns with ⟨size, full⟩ | ⟨a, left, b, right, uneven⟩
    · rw [interleave_eq_ok nonempty full] at accepted
      exact ⟨nonempty, size, full, (Except.ok.inj accepted).symm⟩
    · rw [interleave_of_uneven left right uneven] at accepted
      contradiction
  · rintro ⟨nonempty, size, full, rfl⟩
    exact interleave_eq_ok nonempty full

section Full

variable (full : ∀ column ∈ columns, column.length = size)
include full

theorem uniform_row : ∀ i ∈ List.range size, (row columns i).length = columns.length := by
  intro i member
  refine row_length fun column present => ?_
  rw [full column present]
  exact List.mem_range.mp member

theorem interleaved_length :
    ((List.range size).flatMap (row columns)).length = size * columns.length := by
  rw [BlockLayout.length_flatMap (uniform_row full), List.length_range]

/-- The `i`-th entry of the `k`-th column is the `k`-th one of the `i`-th block. -/
theorem interleaved_getElem? {i k : Nat} (inside : i < size) {column : List α}
    (here : columns[k]? = some column) :
    ((List.range size).flatMap (row columns))[i * columns.length + k]? = column[i]? := by
  have bound := (List.getElem?_eq_some_iff.mp here).1
  rw [BlockLayout.getElem?_flatMap (uniform_row full) (List.getElem?_range inside) bound,
    row_getElem? fun column present => full column present ▸ inside, here, Option.bind_some]

/-- The chunks of the flat list are the rows. -/
theorem chunks_interleaved (nonempty : columns ≠ []) :
    BlockLayout.chunks columns.length ((List.range size).flatMap (row columns)) =
      (List.range size).map (row columns) := by
  have count : ((List.range size).flatMap (row columns)).length / columns.length = size := by
    rw [interleaved_length full, Nat.mul_div_cancel _ (List.length_pos_iff.mpr nonempty)]
  rw [BlockLayout.chunks, count]
  refine List.map_congr_left fun i member => ?_
  have inside := List.getElem?_range (List.mem_range.mp member)
  exact BlockLayout.take_drop_flatMap (uniform_row full) inside

/-- The rows of the rows are the columns. -/
theorem row_rows {k : Nat} {column : List α} (here : columns[k]? = some column) :
    row ((List.range size).map (row columns)) k = column := by
  have bound := (List.getElem?_eq_some_iff.mp here).1
  have long : ∀ entries ∈ (List.range size).map (row columns), k < entries.length := by
    intro entries member
    obtain ⟨i, inside, rfl⟩ := List.mem_map.mp member
    exact (uniform_row full i inside).symm ▸ bound
  refine List.ext_getElem? fun i => ?_
  rw [row_getElem? long, List.getElem?_map]
  rcases Nat.lt_or_ge i size with inside | outside
  · rw [List.getElem?_range inside, Option.map_some, Option.bind_some,
      row_getElem? fun column present => full column present ▸ inside, here, Option.bind_some]
  · have length := full column (List.mem_of_getElem? here)
    rw [List.getElem?_eq_none (List.length_range ▸ outside),
      List.getElem?_eq_none (length ▸ outside)]
    rfl

theorem deinterleave_interleaved (nonempty : columns ≠ []) :
    deinterleave columns.length ((List.range size).flatMap (row columns)) = columns := by
  rw [deinterleave, chunks_interleaved full nonempty]
  refine List.ext_getElem? fun k => ?_
  rw [List.getElem?_map]
  rcases Nat.lt_or_ge k columns.length with inside | outside
  · have here := List.getElem?_eq_getElem inside
    rw [List.getElem?_range inside, Option.map_some, row_rows full here, here]
  · rw [List.getElem?_eq_none (List.length_range ▸ outside), List.getElem?_eq_none outside]
    rfl

end Full

/-- What was interleaved can be read back. -/
theorem deinterleave_of_interleave {values : List α} (accepted : interleave columns = .ok values) :
    deinterleave columns.length values = columns := by
  obtain ⟨nonempty, size, full, rfl⟩ := interleave_eq_ok_iff.mp accepted
  exact deinterleave_interleaved full nonempty

/-- Columns are refused exactly if there are none or two of them differ in length. Otherwise every
entry of every column has its place among the values, and there are no other values; the columns can
be read back, and no other columns of that number have these values. -/
theorem interleave_lossless (columns : List (List α)) :
    ((∃ fault, interleave columns = .error fault ∧ fault.IsInvalidInput) ↔
        columns = [] ∨ ∃ a ∈ columns, ∃ b ∈ columns, a.length ≠ b.length) ∧
      (∀ size, columns ≠ [] → (∀ column ∈ columns, column.length = size) →
        ∃ values, interleave columns = .ok values ∧ values.length = size * columns.length ∧
          ∀ i < size, ∀ k < columns.length, ∃ column a, columns[k]? = some column ∧
            column[i]? = some a ∧ values[i * columns.length + k]? = some a) ∧
      (∀ values, interleave columns = .ok values →
        deinterleave columns.length values = columns) ∧
      ∀ values other, interleave columns = .ok values → interleave other = .ok values →
        other.length = columns.length → other = columns := by
  refine ⟨⟨?_, ?_⟩, ?_, fun values => deinterleave_of_interleave, ?_⟩
  · rintro ⟨fault, refused, -⟩
    rcases full_or_uneven columns with ⟨size, full⟩ | uneven
    · refine .inl (Classical.byContradiction fun nonempty => ?_)
      rw [interleave_eq_ok nonempty full] at refused
      contradiction
    · exact .inr uneven
  · rintro (rfl | ⟨a, left, b, right, uneven⟩)
    · exact ⟨.noColumn, rfl, trivial⟩
    · exact ⟨.dimensionMismatch, interleave_of_uneven left right uneven, trivial⟩
  · intro size nonempty full
    refine ⟨_, interleave_eq_ok nonempty full, interleaved_length full, fun i inside k bound => ?_⟩
    have here := List.getElem?_eq_getElem bound
    have room : i < columns[k].length := full _ (List.getElem_mem bound) ▸ inside
    have entry := List.getElem?_eq_getElem room
    exact ⟨_, _, here, entry, (interleaved_getElem? full inside here).trans entry⟩
  · intro values other accepted accepted' count
    rw [← deinterleave_of_interleave accepted, ← deinterleave_of_interleave accepted', count]

/-- With three columns of two entries, rows and columns cannot be mistaken for one another. -/
theorem interleave_lossless_three :
    interleave [[1, 2], [10, 20], [100, 200]] = .ok [1, 10, 100, 2, 20, 200] ∧
      (∃ values, interleave [[1, 2], [10, 20], [100, 200]] = .ok values ∧ values.length = 6 ∧
        values[1 * 3 + 2]? = some 200) ∧
      deinterleave 3 [1, 10, 100, 2, 20, 200] = [[1, 2], [10, 20], [100, 200]] ∧
      (∀ other, interleave other = .ok [1, 10, 100, 2, 20, 200] → other.length = 3 →
        other = [[1, 2], [10, 20], [100, 200]]) ∧
      ∃ fault, interleave [[1, 2], [10]] = .error fault ∧ fault.IsInvalidInput := by
  have accepted : interleave [[1, 2], [10, 20], [100, 200]] = .ok [1, 10, 100, 2, 20, 200] := rfl
  obtain ⟨-, placed, recovered, only⟩ := interleave_lossless [[1, 2], [10, 20], [100, 200]]
  obtain ⟨refused, -⟩ := interleave_lossless [[1, 2], [10]]
  obtain ⟨values, same, length, entries⟩ := placed 2 (by decide) (by decide)
  obtain ⟨_, _, ⟨⟩, ⟨⟩, last⟩ := entries 1 (by decide) 2 (by decide)
  exact ⟨accepted, ⟨values, same, length, last⟩, recovered _ accepted,
    fun other same count => only _ other accepted same count,
    refused.mpr (.inr ⟨[1, 2], by decide, [10], by decide, by decide⟩)⟩

end Interpolant.Columns
