import Interpolant.Nodes
import Interpolant.Proofs.WindowedAgreement
import Mathlib.Analysis.SpecialFunctions.Trigonometric.Basic

/-! # Chebyshev nodes as sample locations

The angles of the Chebyshev nodes divide a half circle evenly, and each of them has its mirror image
among them. All that is needed of the cosine is that it falls along the half circle, stays inside of
its bounds there and changes its sign in the mirror: then the nodes increase, lie inside of the
interval and are symmetric about its middle. A table with increasing locations is accepted by every
evaluation; so is every table that is sampled at Chebyshev nodes.
-/

namespace Interpolant

universe u

/-- What the nodes need to know of the cosine on a half circle. -/
class HalfCircle (K : Type u) [Field K] [LinearOrder K] [Trigonometric K] : Prop where
  pi_pos : (0 : K) < Trigonometric.pi
  cos_strictAntiOn : StrictAntiOn (Trigonometric.cos : K → K) (Set.Icc 0 Trigonometric.pi)
  cos_mem : ∀ t ∈ Set.Ioo (0 : K) Trigonometric.pi, Trigonometric.cos t ∈ Set.Ioo (-1) 1
  cos_pi_sub : ∀ t ∈ Set.Ioo (0 : K) Trigonometric.pi,
    Trigonometric.cos (Trigonometric.pi - t) = -Trigonometric.cos t

namespace Table

variable {α : Type u} [Scalar α]

/-- No evaluation of the table fails if it is handed a buffer for one block. -/
structure Accepted (table : Table α) : Prop where
  select : ∀ x count, 2 ≤ count →
    ∃ window, (Window.select x table.locations count).result = .ok window
  whole : ∀ x out, out.length = table.stride → (Lagrange.interpolate x table out).result = .ok ()
  windowed : ∀ (method : Method) x degree out, out.length = table.stride →
    (method.interpolateWindowed x table degree out).result = .ok ()
  checked : ∀ x degree out, out.length = table.stride →
    (table.evaluateWindowed x degree out).result = .ok ()

theorem accepted_of_increasing [OrderedScalar α] (table : CheckedTable α)
    (increasing : table.locations.Pairwise (· < ·)) : table.Accepted := by
  have select (x : α) (count : ℕ) (two : 2 ≤ count) :=
    (Window.inGap_below x table.locations).select_eq increasing table.two_le_size two
  have windowed (method : Method) (x : α) (degree : ℕ) (out : List α)
      (room : out.length = table.stride) :
      (method.interpolateWindowed x table degree out).result = .ok () := by
    have selected := select x _ (method.two_le_requiredSamples degree)
    rw [Method.interpolateWindowed_of_ok table.aligned selected,
      Method.interpolate_slice_result_of_increasing table.aligned increasing selected, if_pos room]
  refine ⟨fun x count two => ⟨_, select x count two⟩, ?_, windowed, ?_⟩
  · intro x out room
    have result := Method.lagrange.interpolate_result_of_increasing table nofun increasing x out
    rwa [if_pos room] at result
  · intro x degree out room
    rw [evaluateWindowed_eq_interpolateWindowed table.aligned]
    exact windowed .lagrange x degree out room

end Table

namespace Nodes

variable {K : Type u} [Field K] [LinearOrder K] [Trigonometric K]

theorem angle_eq (k n : ℕ) : (angle k n : K) = Trigonometric.pi * (2 * k + 1) / (2 * n) := by
  change Trigonometric.pi * (((2 : ℕ) : K) * k + 1) / (((2 : ℕ) : K) * n) = _
  rw [Nat.cast_ofNat]

/-- The `k`-th of `n` nodes, counted from `stop`. -/
def chebyshevNode (start stop : K) (n k : ℕ) : K :=
  (start + stop) / 2 + (stop - start) / 2 * Trigonometric.cos (angle k n)

theorem chebyshev_eq_map (start stop : K) (n : ℕ) :
    chebyshev start stop n = (List.range n).reverse.map (chebyshevNode start stop n) := by
  refine List.map_congr_left fun k _ => ?_
  change (start + stop) / ((2 : ℕ) : K) + (stop - start) / ((2 : ℕ) : K) * _ = _
  rw [Nat.cast_ofNat]
  rfl

theorem chebyshev_getElem? (start stop : K) {n i : ℕ} (inside : i < n) :
    (chebyshev start stop n)[i]? = some (chebyshevNode start stop n (n - 1 - i)) := by
  have bound : i < (List.range n).length := List.length_range.symm ▸ inside
  rw [chebyshev_eq_map, List.getElem?_map, List.getElem?_reverse bound, List.length_range,
    List.getElem?_range (by omega), Option.map_some]

variable [IsStrictOrderedRing K] [HalfCircle K] {start stop : K} {n j k : ℕ}

theorem angle_mem (inside : k < n) : angle k n ∈ Set.Ioo (0 : K) Trigonometric.pi := by
  have pi_pos := HalfCircle.pi_pos (K := K)
  have positive : (0 : K) < n := Nat.cast_pos.mpr (Nat.zero_lt_of_lt inside)
  have bound : (2 * k + 1 : K) < 2 * n := by exact_mod_cast (show 2 * k + 1 < 2 * n by omega)
  rw [angle_eq]
  constructor
  · positivity
  · rw [div_lt_iff₀ (by positivity)]
    exact mul_lt_mul_of_pos_left bound pi_pos

theorem angle_lt_angle (order : j < k) (inside : k < n) : (angle j n : K) < angle k n := by
  have pi_pos := HalfCircle.pi_pos (K := K)
  have positive : (0 : K) < n := Nat.cast_pos.mpr (Nat.zero_lt_of_lt inside)
  have apart : (2 * j + 1 : K) < 2 * k + 1 := by exact_mod_cast (show 2 * j + 1 < 2 * k + 1 by omega)
  rw [angle_eq, angle_eq]
  exact div_lt_div_of_pos_right (mul_lt_mul_of_pos_left apart pi_pos) (by positivity)

omit [HalfCircle K] in
/-- Counted from the other end, an angle is its mirror image. -/
theorem angle_mirror (inside : k < n) :
    (angle (n - 1 - k) n : K) = Trigonometric.pi - angle k n := by
  have nonzero : (n : K) ≠ 0 := Nat.cast_ne_zero.mpr (Nat.ne_zero_of_lt inside)
  have count : ((n - 1 - k : ℕ) : K) = n - 1 - k := by
    rw [Nat.cast_sub (by omega), Nat.cast_sub (by omega), Nat.cast_one]
  rw [angle_eq, angle_eq, count]
  field_simp
  ring

theorem chebyshevNode_lt (order : start < stop) (less : j < k) (inside : k < n) :
    chebyshevNode start stop n k < chebyshevNode start stop n j := by
  have radius : 0 < (stop - start) / 2 := half_pos (sub_pos.mpr order)
  have falls : Trigonometric.cos (angle k n : K) < Trigonometric.cos (angle j n) :=
    HalfCircle.cos_strictAntiOn (Set.Ioo_subset_Icc_self (angle_mem (less.trans inside)))
      (Set.Ioo_subset_Icc_self (angle_mem inside)) (angle_lt_angle less inside)
  exact add_lt_add_right (mul_lt_mul_of_pos_left falls radius) _

theorem chebyshevNode_mem (order : start < stop) (inside : k < n) :
    chebyshevNode start stop n k ∈ Set.Ioo start stop := by
  have radius : 0 < (stop - start) / 2 := half_pos (sub_pos.mpr order)
  obtain ⟨low, high⟩ := HalfCircle.cos_mem _ (angle_mem (K := K) inside)
  have above := mul_lt_mul_of_pos_left low radius
  have below := mul_lt_mul_of_pos_left high radius
  constructor
  · rw [chebyshevNode]
    linarith
  · rw [chebyshevNode]
    linarith

/-- A node and its mirror image are equally far from the two ends of the interval. -/
theorem chebyshevNode_add_mirror (start stop : K) (inside : k < n) :
    chebyshevNode start stop n k + chebyshevNode start stop n (n - 1 - k) = start + stop := by
  rw [chebyshevNode, chebyshevNode, angle_mirror inside, HalfCircle.cos_pi_sub _ (angle_mem inside)]
  ring

theorem chebyshev_increasing (order : start < stop) (n : ℕ) :
    (chebyshev start stop n).Pairwise (· < ·) := by
  rw [chebyshev_eq_map, List.pairwise_map, List.pairwise_reverse]
  refine List.pairwise_lt_range.imp_of_mem fun _ member less => ?_
  exact chebyshevNode_lt order less (List.mem_range.mp member)

/-- Chebyshev nodes increase, they are inside of the interval, and they are symmetric about its middle.
A table that is sampled at two or more of them is accepted by every evaluation. -/
theorem chebyshev_valid (start stop : K) (n : ℕ) (order : start < stop) :
    (chebyshev start stop n).length = n ∧ (chebyshev start stop n).Pairwise (· < ·) ∧
      (∀ a ∈ chebyshev start stop n, start < a ∧ a < stop) ∧
      (∀ i < n, ∃ a b, (chebyshev start stop n)[i]? = some a ∧
        (chebyshev start stop n)[n - 1 - i]? = some b ∧ a + b = start + stop) ∧
      ∀ values stride, 2 ≤ n → 0 < stride → values.length = n * stride →
        values.length ≤ Size.largest →
        Table.Accepted ⟨chebyshev start stop n, values, stride⟩ := by
  have length := chebyshev_length start stop n
  have increasing := chebyshev_increasing order n
  refine ⟨length, increasing, ?_, ?_, ?_⟩
  · rw [chebyshev_eq_map]
    intro a member
    obtain ⟨k, inside, rfl⟩ := List.mem_map.mp member
    exact chebyshevNode_mem order (List.mem_range.mp (List.mem_reverse.mp inside))
  · intro i inside
    have mirrored : n - 1 - i < n := by omega
    exact ⟨_, _, chebyshev_getElem? start stop inside, chebyshev_getElem? start stop mirrored,
      chebyshevNode_add_mirror start stop mirrored⟩
  · intro values stride two positive count word
    have size : Table.size ⟨chebyshev start stop n, values, stride⟩ = n := length
    have shape : Table.WellFormed ⟨chebyshev start stop n, values, stride⟩ :=
      ⟨positive, size.symm ▸ two, size.symm ▸ count, word⟩
    exact Table.accepted_of_increasing ⟨_, shape⟩ increasing

end Nodes

/-- The circle constant and the cosine of the real numbers. -/
noncomputable instance realTrigonometric : Trigonometric ℝ where
  pi := Real.pi
  cos := Real.cos

instance realHalfCircle : HalfCircle ℝ where
  pi_pos := Real.pi_pos
  cos_strictAntiOn := Real.strictAntiOn_cos
  cos_mem t inside := by
    have within := Set.Ioo_subset_Icc_self inside
    have low := Real.strictAntiOn_cos within (Set.right_mem_Icc.mpr Real.pi_pos.le) inside.2
    have high := Real.strictAntiOn_cos (Set.left_mem_Icc.mpr Real.pi_pos.le) within inside.1
    exact ⟨Real.cos_pi ▸ low, Real.cos_zero ▸ high⟩
  cos_pi_sub t _ := Real.cos_pi_sub t

/-- The three nodes between -1 and 1: the one in the middle is zero, and the outer ones are opposite. -/
theorem Nodes.chebyshev_valid_three :
    chebyshev (-1 : ℝ) 1 3 = [-(√3 / 2), 0, √3 / 2] ∧
      [-(√3 / 2), 0, √3 / 2].Pairwise (· < ·) ∧ -1 < -(√3 / 2) ∧ √3 / 2 < 1 ∧
      Table.Accepted ⟨[-(√3 / 2), 0, √3 / 2], [1, 5, 2], 1⟩ := by
  obtain ⟨length, increasing, inside, mirrored, accepted⟩ :=
    chebyshev_valid (-1 : ℝ) 1 3 (by norm_num)
  have accepted := accepted [1, 5, 2] 1 (by decide) (by decide) rfl (by decide)
  have greatest : (chebyshev (-1 : ℝ) 1 3)[2]? = some (√3 / 2) := by
    have sixth : (angle 0 3 : ℝ) = Real.pi / 6 := by
      rw [angle_eq]
      change Real.pi * (2 * (0 : ℕ) + 1) / (2 * (3 : ℕ)) = _
      norm_num
    rw [chebyshev_getElem? _ _ (by decide), chebyshevNode, sixth]
    norm_num [Trigonometric.cos]
  obtain ⟨x, z, first, last, outer⟩ := mirrored 0 (by decide)
  obtain ⟨y, y', middle, middle', centre⟩ := mirrored 1 (by decide)
  obtain ⟨a, b, c, nodes⟩ := List.length_eq_three.mp length
  rw [nodes] at first last middle middle' greatest increasing inside accepted ⊢
  have first : a = x := Option.some.inj first
  have last : c = z := Option.some.inj last
  have middle : b = y := Option.some.inj middle
  have middle' : b = y' := Option.some.inj middle'
  obtain rfl : c = √3 / 2 := Option.some.inj greatest
  obtain rfl : a = -(√3 / 2) := by linarith
  obtain rfl : b = 0 := by linarith
  exact ⟨rfl, increasing, (inside _ List.mem_cons_self).1, (inside _ (by simp)).2, accepted⟩

end Interpolant
