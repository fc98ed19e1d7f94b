import Interpolant.Proofs.Selection

/-! # Where a window lies

The sample locations cut the line into gaps: the `k`-th one is behind the first `k` locations and
reaches up to the next one, that one included. In increasing locations the gap that a query is in
decides its window, which always reaches to the samples at both ends of the gap. The samples of a
window keep their locations and blocks when they become a table of their own.
-/

namespace Interpolant

universe u

open OrderedScalar

namespace Window

/-- The sample at position `i` belongs to the window. -/
def Contains (window : Window) (i : Nat) : Prop :=
  window.first ≤ i ∧ i < window.stop

/-- A window reaches to its pivot and to the sample before it, as far as there are such samples. -/
theorem around_contains {pivot count size i : Nat} (two : 2 ≤ count) (fits : count ≤ size)
    (inside : i < size) (near : i = pivot ∨ i + 1 = pivot) :
    (around pivot count size).Contains i := by
  simp only [Contains, around, stop]
  omega

variable {α : Type u} [Scalar α]

/-- The query is behind the first `k` locations, and not behind the next one. -/
structure InGap (locations : List α) (k : Nat) (x : α) : Prop where
  bound : k ≤ locations.length
  behind : ∀ i a, i + 1 = k → locations[i]? = some a → a < x
  upTo : ∀ a, locations[k]? = some a → ¬ a < x

/-- What a search for `x` knows when it is down to `size` positions from `base` on. If it has moved
on from the first location, the one at `base` is below `x`. The location behind the positions is not,
or the last of several positions has one that is not. -/
structure Narrowed (x : α) (locations : List α) (base size : Nat) : Prop where
  inside : base + size ≤ locations.length
  nonempty : 0 < base → 0 < size
  low : ∀ a, 0 < base → locations[base]? = some a → a < x
  high : (∀ a, locations[base + size]? = some a → ¬ a < x) ∨
    1 < size ∧ ∀ a, locations[base + size - 1]? = some a → ¬ a < x

namespace Narrowed

variable {x : α} {locations : List α} {base size : Nat}

theorem start (x : α) (locations : List α) : Narrowed x locations 0 locations.length where
  inside := Nat.le_of_eq (Nat.zero_add _)
  nonempty := nofun
  low := nofun
  high := by
    refine .inl fun a here => ?_
    have ⟨bound, _⟩ := List.getElem?_eq_some_iff.mp here
    omega

theorem upper (narrowed : Narrowed x locations base size) (several : 1 < size)
    (low : ∃ a ∈ locations[base + size / 2]?, a < x) :
    Narrowed x locations (base + size / 2) (size - size / 2) := by
  obtain ⟨a, here, less⟩ := low
  have inside := narrowed.inside
  refine ⟨by omega, by omega, ?_, ?_⟩
  · rintro b - there
    exact Option.some.inj (here.symm.trans there) ▸ less
  · have same : base + size / 2 + (size - size / 2) = base + size := by omega
    rw [same]
    rcases narrowed.high with behind | ⟨-, last⟩
    · exact .inl behind
    · -- The middle of two positions is the last one.
      rcases Nat.eq_or_lt_of_le several with pair | more
      · have middle : base + size - 1 = base + size / 2 := by omega
        rw [middle] at last
        exact absurd less (last a here)
      · exact .inr ⟨by omega, last⟩

theorem lower (narrowed : Narrowed x locations base size) (several : 1 < size)
    (high : ¬ ∃ a ∈ locations[base + size / 2]?, a < x) :
    Narrowed x locations base (size - size / 2) := by
  have inside := narrowed.inside
  have above : ∀ a, locations[base + size / 2]? = some a → ¬ a < x :=
    fun a here less => high ⟨a, here, less⟩
  refine ⟨by omega, by omega, narrowed.low, ?_⟩
  rcases Nat.mod_two_eq_zero_or_one size with even | odd
  · have middle : base + (size - size / 2) = base + size / 2 := by omega
    exact .inl (middle ▸ above)
  · have middle : base + (size - size / 2) - 1 = base + size / 2 := by omega
    exact .inr ⟨by omega, middle ▸ above⟩

theorem inGap (narrowed : Narrowed x locations base size) :
    InGap locations (bisect x locations base size) x := by
  fun_induction bisect x locations base size with
  | case1 base size several low ih => exact ih (narrowed.upper several low)
  | case2 base size several high ih => exact ih (narrowed.lower several high)
  | case3 base size few low =>
    obtain ⟨a, here, less⟩ := low
    have behind := narrowed.high.resolve_right fun last => few last.1
    refine ⟨(List.getElem?_eq_some_iff.mp here).1, ?_, ?_⟩
    · intro i b last there
      obtain rfl := Nat.succ.inj last
      exact Option.some.inj (here.symm.trans there) ▸ less
    · rcases Nat.eq_or_lt_of_le (Nat.not_lt.mp few) with rfl | none
      · exact behind
      · obtain rfl := Nat.lt_one_iff.mp none
        exact absurd less (behind a here)
  | case4 base size few high =>
    have inside := narrowed.inside
    refine ⟨by omega, ?_, fun a here less => high ⟨a, here, less⟩⟩
    -- The search has not moved on: it ends at the first location.
    rintro i a rfl -
    have some := narrowed.nonempty (Nat.succ_pos i)
    have here := List.getElem?_eq_getElem (show i + 1 < locations.length by omega)
    exact absurd ⟨_, here, narrowed.low _ (Nat.succ_pos i) here⟩ high

end Narrowed

/-- A search ends in a gap that the query is in, whatever the order of the locations is. -/
theorem inGap_below (x : α) (locations : List α) : InGap locations (below x locations) x :=
  (Narrowed.start x locations).inGap

/-- A location that is no number is not below the query, but the search goes on behind it. -/
example : below (5 / 2 : Float) [0 / 0, 1, 2, 3] = 3 := by decide +kernel

/-- The search finds where a list is split into values below the query and values that are not. -/
theorem below_append {low high : List α} {x : α} (left : ∀ a ∈ low, a < x)
    (right : ∀ a ∈ high, ¬ a < x) : below x (low ++ high) = low.length := by
  have gap := inGap_below x (low ++ high)
  generalize below x (low ++ high) = k at gap
  rcases Nat.lt_trichotomy k low.length with early | same | late
  · have here := List.getElem?_eq_getElem early
    rw [← List.getElem?_append_left early] at here
    exact absurd (left _ (List.getElem_mem early)) (gap.upTo _ here)
  · exact same
  · have inside : k - 1 < (low ++ high).length := by
      have bound := gap.bound
      omega
    have here := List.getElem?_eq_getElem inside
    have member := here
    rw [List.getElem?_append_right (by omega)] at member
    exact absurd (gap.behind (k - 1) _ (by omega) here) (right _ (List.mem_of_getElem? member))

variable [OrderedScalar α]

/-- The locations before the gap that a query is in are below it, and the others are not. -/
theorem InGap.lt_iff {locations : List α} {k : Nat} {x : α} (gap : InGap locations k x)
    (increasing : locations.Pairwise (· < ·)) {i : Nat} {a : α} (here : locations[i]? = some a) :
    a < x ↔ i < k := by
  have ⟨bound, _⟩ := List.getElem?_eq_some_iff.mp here
  constructor
  · intro less
    refine Nat.lt_of_not_le fun behind => ?_
    rcases Nat.lt_or_eq_of_le behind with further | rfl
    · have next := List.getElem?_eq_getElem (show k < locations.length by omega)
      exact gap.upTo _ next (lt_trans (related_of_pairwise increasing further next here) less)
    · exact gap.upTo a here less
  · intro before
    rcases Nat.lt_or_eq_of_le (Nat.succ_le_of_lt before) with further | last
    · -- The location next to the gap is the largest of those before it.
      have inside : k - 1 < locations.length := by have := gap.bound; omega
      have there := List.getElem?_eq_getElem inside
      have largest := gap.behind (k - 1) _ (by omega) there
      exact lt_trans (related_of_pairwise increasing (show i < k - 1 by omega) here there) largest
    · exact gap.behind i a last here

/-- The gap that a query is in splits increasing locations into those below it and the others. -/
theorem InGap.split {locations : List α} {k : Nat} {x : α} (gap : InGap locations k x)
    (increasing : locations.Pairwise (· < ·)) :
    (∀ a ∈ locations.take k, a < x) ∧ ∀ a ∈ locations.drop k, ¬ a < x := by
  constructor
  · intro a member
    obtain ⟨i, bound, rfl⟩ := List.mem_take_iff_getElem.mp member
    obtain ⟨before, inside⟩ := Nat.lt_min.mp bound
    exact (gap.lt_iff increasing (List.getElem?_eq_getElem inside)).mpr before
  · intro a member less
    obtain ⟨i, inside, rfl⟩ := List.mem_drop_iff_getElem.mp member
    have here := List.getElem?_eq_getElem (show k + i < locations.length by omega)
    have before := (gap.lt_iff increasing here).mp less
    omega

theorem InGap.below_eq {locations : List α} {k : Nat} {x : α} (gap : InGap locations k x)
    (increasing : locations.Pairwise (· < ·)) : below x locations = k := by
  obtain ⟨low, high⟩ := gap.split increasing
  have found := below_append low high
  rwa [List.take_append_drop, List.length_take_of_le gap.bound] at found

/-- In increasing locations the search counts those that are below the query. -/
theorem below_eq_countP {locations : List α} (increasing : locations.Pairwise (· < ·)) (x : α) :
    below x locations = locations.countP (· < x) := by
  have gap := inGap_below x locations
  obtain ⟨low, high⟩ := gap.split increasing
  generalize below x locations = k at gap low high
  have all : (locations.take k).countP (· < x) = k := by
    rw [List.countP_eq_length.mpr fun a member => decide_eq_true (low a member)]
    exact List.length_take_of_le gap.bound
  have none : (locations.drop k).countP (· < x) = 0 :=
    List.countP_eq_zero.mpr fun a member => mt of_decide_eq_true (high a member)
  rw [← List.take_append_drop k locations, List.countP_append, all, none, Nat.add_zero]

theorem ascending_of_increasing {locations : List α} (increasing : locations.Pairwise (· < ·)) :
    Ascending locations :=
  (increasing.imp fun less => (lt_iff.mp less).2).isChain

/-- The window depends on nothing but the gap that the query is in. -/
theorem InGap.select_eq {locations : List α} {k : Nat} {x : α} (gap : InGap locations k x)
    (increasing : locations.Pairwise (· < ·)) (size : 2 ≤ locations.length) {count : Nat}
    (two : 2 ≤ count) : (select x locations count).result =
      .ok (around k (min count locations.length) locations.length) := by
  rw [select_eq_ok_iff, gap.below_eq increasing]
  exact ⟨two, size, ascending_of_increasing increasing, rfl⟩

/-- A query at a sample is in the gap that ends there. -/
theorem inGap_of_beq {locations : List α} (increasing : locations.Pairwise (· < ·)) {m : Nat}
    {a x : α} (here : locations[m]? = some a) (same : (x == a) = true) : InGap locations m x := by
  have ⟨bound, _⟩ := List.getElem?_eq_some_iff.mp here
  refine ⟨bound.le, ?_, ?_⟩
  · rintro i b rfl there
    have less := related_of_pairwise increasing (Nat.lt_succ_self i) there here
    exact lt_of_lt_of_beq less (beq_symm same)
  · intro b there less
    obtain rfl := Option.some.inj (here.symm.trans there)
    exact not_beq_of_lt less (beq_symm same)

end Window

namespace Table

variable {α : Type u}

theorem slice_location {table : Table α} {first count i : Nat} (inside : i < count) :
    (table.slice first count).locations[i]? = table.locations[first + i]? :=
  @Window.restrict_getElem? α ⟨first, count⟩ table.locations i inside

theorem slice_block {table : Table α} {first count i : Nat} (inside : i < count) :
    (table.slice first count).block i = table.block (first + i) := by
  have room : table.stride ≤ count * table.stride - i * table.stride := by
    rw [← Nat.sub_mul]
    exact Nat.le_mul_of_pos_left _ (Nat.sub_pos_of_lt inside)
  rw [block, block, slice, List.drop_take, List.take_take, Nat.min_eq_left room, List.drop_drop,
    Nat.add_mul]

/-- A sample in a window has its location and its block in the part of the table as well. -/
theorem slice_of_contains (table : Table α) {window : Window} {m : Nat}
    (held : window.Contains m) :
    (table.slice window.first window.count).locations[m - window.first]? = table.locations[m]? ∧
      (table.slice window.first window.count).block (m - window.first) = table.block m := by
  obtain ⟨first, stop⟩ := held
  have within : m - window.first < window.count := by
    rw [Window.stop] at stop
    omega
  rw [slice_location within, slice_block within, Nat.add_sub_cancel' first]
  exact ⟨rfl, rfl⟩

end Table

end Interpolant
