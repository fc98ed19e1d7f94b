import Interpolant.Scalar
import Interpolant.Table
import Interpolant.Written

/-! # The chord through two samples

The straight line through two samples, extended beyond them. Its value is the sum of the two
blocks, each weighted by how close the query is to the other sample, as a part of the distance
between the two.
-/

namespace Interpolant.Chord

universe u

variable {α : Type u} [Scalar α]

/-- How many samples determine a chord. -/
def requiredSamples : Nat := 2

/-- The block that is `left` with weight `w₀` and `right` with weight `w₁`. -/
def blend (w₀ w₁ : α) (left right : List α) : List α :=
  left.zipWith (fun a b => w₀ * a + w₁ * b) right

/-- Writes the value at `x` of the chord through the two samples of a table. A number of samples
other than two is reported first, then any wrong length, then a distance of zero; the buffer is
written only on success. -/
def interpolate (x : α) (table : Table α) (out : List α) : Written α :=
  match table.locations with
  | [x₀, x₁] =>
    if ¬ table.Aligned ∨ out.length ≠ table.stride then .refused .dimensionMismatch out
    else
      let gap := x₁ - x₀
      if gap == 0 then ⟨.error (.degenerateSamples 0 1), out, [.vanishingChord]⟩
      else .done (blend ((x₁ - x) / gap) ((x - x₀) / gap) (table.block 0) (table.block 1))
  | _ => .refused .notTwoSamples out

theorem interpolate_of_not_two {table : Table α} (other : table.size ≠ 2) (x : α) (out : List α) :
    interpolate x table out = .refused .notTwoSamples out := by
  rw [interpolate]
  split
  · next ends => exact absurd (congrArg List.length ends) other
  · rfl

theorem interpolate_of_ends {table : Table α} {out : List α} {x₀ x₁ : α} (shape : table.Aligned)
    (room : out.length = table.stride) (ends : table.locations = [x₀, x₁]) (x : α) :
    interpolate x table out =
      if x₁ - x₀ == 0 then ⟨.error (.degenerateSamples 0 1), out, [.vanishingChord]⟩
      else .done (blend ((x₁ - x) / (x₁ - x₀)) ((x - x₀) / (x₁ - x₀))
        (table.block 0) (table.block 1)) := by
  rw [interpolate, ends]
  exact if_neg (not_or.mpr ⟨not_not_intro shape, not_not_intro room⟩)

/-- The chord through two blocks of a table is as long as a block. -/
theorem blend_length {table : Table α} {x₀ x₁ : α} (shape : table.Aligned)
    (ends : table.locations = [x₀, x₁]) (w₀ w₁ : α) :
    (blend w₀ w₁ (table.block 0) (table.block 1)).length = table.stride := by
  have size : table.size = 2 := congrArg List.length ends
  have first := Table.block_length shape (i := 0) (by omega)
  have second := Table.block_length shape (i := 1) (by omega)
  rw [blend, List.length_zipWith, first, second, Nat.min_self]

theorem blend_getElem? {w₀ w₁ y₀ y₁ : α} {left right : List α} {k : Nat}
    (first : left[k]? = some y₀) (second : right[k]? = some y₁) :
    (blend w₀ w₁ left right)[k]? = some (w₀ * y₀ + w₁ * y₁) := by
  simp only [blend, List.getElem?_zipWith, first, second]

end Interpolant.Chord
