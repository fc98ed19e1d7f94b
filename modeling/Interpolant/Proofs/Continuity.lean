import Interpolant.Proofs.WindowedExactness
import Mathlib.Topology.Algebra.Order.Field
import Mathlib.Topology.Algebra.Polynomial

/-! # Continuity

Whatever the values of the samples are, interpolation from windows is piecewise: all queries in one
gap between samples share a window, and on it the method evaluates one polynomial for every
component. The two windows that meet at a sample both hold it, and the pieces on both sides pass
through it. Hence the pieces join at the samples, and the whole is continuous.
-/

namespace Interpolant

open Polynomial

universe u

variable {K : Type u} [Field K] [LinearOrder K]

namespace Table

/-- Every component of the weighted sum of all blocks is a polynomial through the samples. -/
theorem exists_polynomial {table : CheckedTable K} (distinct : table.locations.Nodup) {k : ℕ}
    (inside : k < table.stride) :
    ∃ p : K[X], p.degree < table.size ∧ table.PassesThrough k p ∧
      ∀ x, (table.value x)[k]? = some (p.eval x) := by
  obtain ⟨p, ⟨small, through⟩, -⟩ := existsUnique_passesThrough distinct inside
  have small := (degree_lt_size_iff table p).mpr small
  exact ⟨p, small, through, fun x => value_of_passesThrough x distinct inside small through⟩

/-- At a sample the weighted sum of all blocks is the block of that sample. -/
theorem value_eq_block {table : CheckedTable K} (distinct : table.locations.Nodup) {m : ℕ} {a : K}
    (here : table.locations[m]? = some a) : table.value a = table.block m := by
  have bound : m < table.size := (List.getElem?_eq_some_iff.mp here).1
  refine List.ext_getElem? fun k => ?_
  rcases Nat.lt_or_ge k table.stride with inside | outside
  · obtain ⟨p, -, through, value⟩ := exists_polynomial distinct inside
    rw [value, table.block_getElem? inside]
    exact (through m a here).symm
  · rw [List.getElem?_eq_none ((table.value_length table.aligned a).trans_le outside),
      List.getElem?_eq_none ((block_length table.aligned bound).trans_le outside)]

end Table

namespace Window

/-- The gap behind the first `k` locations, with the locations at both of its ends. -/
def closedGap (locations : List K) (k : ℕ) : Set K :=
  {x | (∀ i a, i + 1 = k → locations[i]? = some a → a ≤ x) ∧
    ∀ a, locations[k]? = some a → x ≤ a}

theorem InGap.mem_closedGap {locations : List K} {k : ℕ} {x : K} (gap : InGap locations k x) :
    x ∈ closedGap locations k :=
  ⟨fun i a last here => (gap.behind i a last here).le, fun a here => not_lt.mp (gap.upTo a here)⟩

/-- A closed gap has one query more than the gap: the location that it starts at. -/
theorem inGap_or_of_mem_closedGap {locations : List K} {k : ℕ} {x : K}
    (bound : k ≤ locations.length) (member : x ∈ closedGap locations k) :
    InGap locations k x ∨ ∃ m, m + 1 = k ∧ locations[m]? = some x := by
  by_cases start : ∃ m, m + 1 = k ∧ locations[m]? = some x
  · exact .inr start
  · refine .inl ⟨bound, fun i a last here => ?_, fun a here => not_lt.mpr (member.2 a here)⟩
    refine lt_of_le_of_ne (member.1 i a last here) fun same => start ⟨i, last, same ▸ here⟩

section Topology

variable [TopologicalSpace K] [OrderTopology K]

omit [Field K] in
theorem isClosed_closedGap (locations : List K) (k : ℕ) : IsClosed (closedGap locations k) := by
  simp only [closedGap, Set.ofPred_and, Set.ofPred_forall]
  apply IsClosed.inter
  · exact isClosed_iInter fun i => isClosed_iInter fun a => isClosed_iInter fun _ =>
      isClosed_iInter fun _ => isClosed_Ici
  · exact isClosed_iInter fun a => isClosed_iInter fun _ => isClosed_Iic

/-- A function is continuous if it is made of continuous pieces, one for each gap, and takes the
value of the piece behind it at every location. -/
theorem continuous_of_pieces (locations : List K) {f : K → K} (piece : ℕ → K → K)
    (smooth : ∀ k ≤ locations.length, Continuous (piece k))
    (inside : ∀ k x, InGap locations k x → f x = piece k x)
    (joint : ∀ m a, locations[m]? = some a → f a = piece (m + 1) a) : Continuous f := by
  have agrees : ∀ k ≤ locations.length, Set.EqOn f (piece k) (closedGap locations k) := by
    intro k bound x member
    rcases inGap_or_of_mem_closedGap bound member with gap | ⟨m, rfl, start⟩
    · exact inside k x gap
    · exact joint m x start
  have cover : ⋃ k : Fin (locations.length + 1), closedGap locations k = Set.univ := by
    refine Set.eq_univ_of_forall fun x => Set.mem_iUnion.mpr ?_
    have gap := inGap_below x locations
    exact ⟨⟨below x locations, Nat.lt_succ_of_le gap.bound⟩, gap.mem_closedGap⟩
  refine (locallyFinite_of_finite _).continuous cover
    (fun k => isClosed_closedGap locations k) fun k => ?_
  have bound := Nat.le_of_lt_succ k.isLt
  exact (smooth k bound).continuousOn.congr (agrees k bound)

end Topology

end Window

namespace Method

/-- Interpolation from windows consists of pieces: `window g` serves all queries in the gap behind
the first `g` samples. -/
structure Pieces (method : Method) (table : Table K) (degree : ℕ) (window : ℕ → Window) :
    Prop where
  /-- All queries up to the first sample share a window. -/
  first : ∀ a x, table.locations[0]? = some a → x ≤ a →
    (Window.select x table.locations (method.requiredSamples degree)).result = .ok (window 0)
  /-- All queries behind a sample and up to the next one share a window. -/
  between : ∀ m a b x, table.locations[m]? = some a → table.locations[m + 1]? = some b →
    a < x → x ≤ b →
    (Window.select x table.locations (method.requiredSamples degree)).result = .ok (window (m + 1))
  /-- All queries behind the last sample share a window. -/
  last : ∀ a x, table.locations[table.size - 1]? = some a → a < x →
    (Window.select x table.locations (method.requiredSamples degree)).result =
      .ok (window table.size)
  /-- The windows of the gaps on both sides of a sample hold it. -/
  holds : ∀ m < table.size, (window m).Contains m ∧ (window (m + 1)).Contains m
  /-- At a sample the pieces on both of its sides give the values of the sample. -/
  joint : ∀ m a out, table.locations[m]? = some a → out.length = table.stride →
    method.interpolate a (table.slice (window m).first (window m).count) out =
        .done (table.block m) ∧
      method.interpolate a (table.slice (window (m + 1)).first (window (m + 1)).count) out =
        .done (table.block m)
  /-- Every component of a piece is a polynomial of a degree less than its number of samples. -/
  polynomial : ∀ g ≤ table.size, ∀ k < table.stride, ∃ p : K[X], p.degree < (window g).count ∧
    ∀ x out, out.length = table.stride →
      (method.interpolate x (table.slice (window g).first (window g).count) out).result = .ok () ∧
        (method.interpolate x (table.slice (window g).first (window g).count) out).out[k]? =
          some (p.eval x)

/-- The window of the queries behind the first `g` samples of a table. -/
def windowOf (method : Method) (degree size g : ℕ) : Window :=
  .around g (min (method.requiredSamples degree) size) size

variable (method : Method) (degree g : ℕ) {table : CheckedTable K} {m : ℕ} {a x : K} {out : List K}

omit [Field K] [LinearOrder K] in
theorem two_le_windowOf : 2 ≤ (method.windowOf degree table.size g).count :=
  le_min (method.two_le_requiredSamples degree) table.two_le_size

omit [Field K] [LinearOrder K] in
theorem windowOf_stop_le : (method.windowOf degree table.size g).stop ≤ table.size :=
  Window.stop_around_le (min_le_right _ _)

omit [Field K] [LinearOrder K] in
theorem windowOf_contains {g : ℕ} (inside : m < table.size) (near : m = g ∨ m + 1 = g) :
    (method.windowOf degree table.size g).Contains m :=
  Window.around_contains (method.two_le_windowOf degree g) (min_le_right _ _) inside near

theorem select_of_inGap {g : ℕ} (increasing : table.locations.Pairwise (· < ·))
    (gap : Window.InGap table.locations g x) :
    (Window.select x table.locations (method.requiredSamples degree)).result =
      .ok (method.windowOf degree table.size g) :=
  gap.select_eq increasing table.two_le_size (method.two_le_requiredSamples degree)

/-- The samples that queries behind the first `g` samples of a table are answered from. -/
def piece (method : Method) (table : CheckedTable K) (degree g : ℕ) : CheckedTable K :=
  table.aligned.part (method.two_le_windowOf degree g) (method.windowOf_stop_le degree g)

omit [Field K] [LinearOrder K] in
theorem piece_eq_slice : (method.piece table degree g).toTable =
    table.slice (method.windowOf degree table.size g).first
      (method.windowOf degree table.size g).count := rfl

omit [Field K] [LinearOrder K] in
theorem piece_size :
    (method.piece table degree g).size = (method.windowOf degree table.size g).count :=
  Table.slice_size (method.windowOf_stop_le degree g)

omit [Field K] in
theorem piece_distinct (increasing : table.locations.Pairwise (· < ·)) :
    (method.piece table degree g).locations.Nodup :=
  (increasing.sublist (table.slice_locations_sublist _ _)).imp ne_of_lt

theorem interpolate_piece (increasing : table.locations.Pairwise (· < ·))
    (room : out.length = table.stride) (x : K) :
    method.interpolate x (method.piece table degree g) out =
      .done ((method.piece table degree g).value x) :=
  interpolate_slice_eq_value table.aligned increasing rfl (method.two_le_windowOf degree g)
    (method.windowOf_stop_le degree g) room x

/-- The pieces of the gaps on both sides of a sample give its values there. -/
theorem piece_value_at_sample {g : ℕ} (increasing : table.locations.Pairwise (· < ·))
    (here : table.locations[m]? = some a) (near : m = g ∨ m + 1 = g) :
    (method.piece table degree g).value a = table.block m := by
  have inside : m < table.size := (List.getElem?_eq_some_iff.mp here).1
  obtain ⟨location, block⟩ := table.slice_of_contains (method.windowOf_contains degree inside near)
  exact (Table.value_eq_block (method.piece_distinct degree g increasing)
    (location.trans here)).trans block

theorem interpolateWindowed_of_inGap {g : ℕ} (increasing : table.locations.Pairwise (· < ·))
    (room : out.length = table.stride) (gap : Window.InGap table.locations g x) :
    (method.interpolateWindowed x table degree out).result = .ok () ∧
      (method.interpolateWindowed x table degree out).out =
        (method.piece table degree g).value x :=
  interpolateWindowed_eq_value table.aligned increasing
    (method.select_of_inGap degree increasing gap) room

theorem pieces_windowOf (increasing : table.locations.Pairwise (· < ·)) :
    method.Pieces table.toTable degree (method.windowOf degree table.size) where
  first a x here below := by
    apply method.select_of_inGap degree increasing
    refine ⟨Nat.zero_le _, nofun, fun b there => ?_⟩
    exact Option.some.inj (here.symm.trans there) ▸ not_lt.mpr below
  between m a b x left right above below := by
    apply method.select_of_inGap degree increasing
    have bound := (List.getElem?_eq_some_iff.mp right).1
    refine ⟨bound.le, fun i c same there => ?_, fun c there => ?_⟩
    · obtain rfl := Nat.succ.inj same
      exact Option.some.inj (left.symm.trans there) ▸ above
    · exact Option.some.inj (right.symm.trans there) ▸ not_lt.mpr below
  last a x here above := by
    apply method.select_of_inGap degree increasing
    refine ⟨le_refl _, fun i c same there => ?_, fun c there => ?_⟩
    · obtain rfl : i = table.size - 1 := Nat.eq_sub_of_add_eq same
      exact Option.some.inj (here.symm.trans there) ▸ above
    · rw [Table.size, List.getElem?_eq_none (le_refl _)] at there
      contradiction
  holds m inside :=
    ⟨method.windowOf_contains degree inside (.inl rfl),
      method.windowOf_contains degree inside (.inr rfl)⟩
  joint m a out here room := by
    have left := method.interpolate_piece degree m increasing room a
    have right := method.interpolate_piece degree (m + 1) increasing room a
    rw [method.piece_value_at_sample degree increasing here (.inl rfl)] at left
    rw [method.piece_value_at_sample degree increasing here (.inr rfl)] at right
    exact ⟨left, right⟩
  polynomial g _ k inside := by
    obtain ⟨p, small, -, value⟩ :=
      Table.exists_polynomial (method.piece_distinct degree g increasing) inside
    refine ⟨p, method.piece_size degree g ▸ small, fun x out room => ?_⟩
    have piece := method.interpolate_piece degree g increasing room x
    exact ⟨congrArg Written.result piece, (congrArg (·.out[k]?) piece).trans (value x)⟩

/-- Interpolation from windows is a piecewise polynomial, and it is continuous: all queries in one
gap between the samples share a window, the windows on both sides of a sample hold it, and the
pieces on both sides of it meet there in its values. -/
theorem interpolateWindowed_continuous [TopologicalSpace K] [OrderTopology K]
    [IsStrictOrderedRing K] (method : Method) (table : Table K) (degree : ℕ)
    (shape : table.WellFormed) (increasing : table.locations.Pairwise (· < ·)) :
    (∃ window, method.Pieces table degree window) ∧
      ∀ k < table.stride, ∃ f : K → K, Continuous f ∧
        ∀ x out, out.length = table.stride →
          (method.interpolateWindowed x table degree out).result = .ok () ∧
            (method.interpolateWindowed x table degree out).out[k]? = some (f x) := by
  obtain ⟨table, rfl⟩ := shape.exists_checked
  refine ⟨⟨_, method.pieces_windowOf degree increasing⟩, fun k inside => ?_⟩
  have polynomial (g : ℕ) :=
    Table.exists_polynomial (method.piece_distinct degree g increasing) inside
  choose p small through value using polynomial
  refine ⟨fun x => (p (Window.below x table.locations)).eval x, ?_, fun x out room => ?_⟩
  · refine Window.continuous_of_pieces table.locations (fun g x => (p g).eval x)
      (fun g _ => (p g).continuous) ?_ ?_
    · intro g x gap
      rw [gap.below_eq increasing]
    · intro m a here
      have gap := Window.inGap_of_beq increasing here (beq_self_eq_true a)
      rw [gap.below_eq increasing]
      -- Both polynomials take the value of the sample that they meet at.
      have left := value m a
      have right := value (m + 1) a
      rw [method.piece_value_at_sample degree increasing here (.inl rfl)] at left
      rw [method.piece_value_at_sample degree increasing here (.inr rfl)] at right
      exact Option.some.inj (left.symm.trans right)
  · obtain ⟨result, contents⟩ := method.interpolateWindowed_of_inGap degree increasing room
      (Window.inGap_below x table.locations)
    exact ⟨result, contents ▸ value _ x⟩

/-- The parabolas through the first and through the last three of four samples meet at the second
sample, where the window switches. -/
theorem interpolateWindowed_continuous_parabolas :
    let table : Table ℚ := ⟨[0, 1, 3, 4], [2, 5, 1, 0], 1⟩
    (Window.select 1 table.locations 3).result = .ok ⟨0, 3⟩ ∧
      (Window.select 2 table.locations 3).result = .ok ⟨1, 3⟩ ∧
      (lagrange.interpolate 1 (table.slice 0 3) [0]).out = [5] ∧
      (lagrange.interpolate 1 (table.slice 1 3) [0]).out = [5] ∧
      ∃ f : ℚ → ℚ, Continuous f ∧
        ∀ x, (lagrange.interpolateWindowed x table 2 [0]).out[0]? = some (f x) := by
  intro table
  have left : (Window.select 1 table.locations 3).result = .ok ⟨0, 3⟩ := by decide +kernel
  have right : (Window.select 2 table.locations 3).result = .ok ⟨1, 3⟩ := by decide +kernel
  obtain ⟨⟨window, pieces⟩, whole⟩ := interpolateWindowed_continuous .lagrange table 2
    ⟨by decide, by decide, by decide, by decide⟩ (by decide)
  have before : window 1 = ⟨0, 3⟩ := Except.ok.inj
    ((pieces.between 0 0 1 1 rfl rfl (by norm_num) (by norm_num)).symm.trans left)
  have behind : window 2 = ⟨1, 3⟩ := Except.ok.inj
    ((pieces.between 1 1 3 2 rfl rfl (by norm_num) (by norm_num)).symm.trans right)
  obtain ⟨meets, leaves⟩ := pieces.joint 1 1 [0] rfl rfl
  rw [before] at meets
  rw [behind] at leaves
  obtain ⟨f, continuous, value⟩ := whole 0 (by decide)
  exact ⟨left, right, congrArg Written.out meets, congrArg Written.out leaves, f, continuous,
    fun x => (value x [0] rfl).2⟩

end Method

end Interpolant
