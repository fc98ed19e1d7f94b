import Interpolant.Fault

/-! # Columns

Values often come with one list per component, each with an entry for every sample. Interleaving
turns such columns into the flat list that a table holds: the first entries of all columns, then
the second ones, and so on.
-/

namespace Interpolant.Columns

universe u

variable {α : Type u}

/-- The entries at position `i` of all columns that have one. -/
def row (columns : List (List α)) (i : Nat) : List α :=
  columns.filterMap fun column => column[i]?

/-- The rows of equally long columns, one after another. -/
def interleave (columns : List (List α)) : Except Fault (List α) :=
  match columns with
  | [] => .error .noColumn
  | column :: rest =>
    if rest.all fun other => other.length = column.length then
      .ok ((List.range column.length).flatMap (row columns))
    else .error .dimensionMismatch

theorem row_getElem? {columns : List (List α)} {i : Nat}
    (long : ∀ column ∈ columns, i < column.length) (k : Nat) :
    (row columns i)[k]? = columns[k]?.bind fun column => column[i]? := by
  induction columns generalizing k with
  | nil => rfl
  | cons column rest ih =>
    obtain ⟨entry, found⟩ : ∃ entry, column[i]? = some entry :=
      ⟨_, List.getElem?_eq_getElem (long column List.mem_cons_self)⟩
    have split : row (column :: rest) i = entry :: row rest i := by
      simp only [row, List.filterMap_cons, found]
    rw [split]
    cases k with
    | zero => exact found.symm
    | succ k => exact ih (fun other member => long other (List.mem_cons_of_mem _ member)) k

end Interpolant.Columns
