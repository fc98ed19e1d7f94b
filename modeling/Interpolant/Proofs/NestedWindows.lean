import Interpolant.Proofs.Locality

/-! # Moving and growing windows

As a query moves up, more locations are below it, and its window moves up as well, at neither end
back. As more samples are asked for, the window grows at one end or at the other one and keeps all
that it had, so that a higher degree only adds to the samples in use. Both hold up to the ends of the
table and for windows that are cut down to it.
-/

namespace Interpolant

universe u

open OrderedScalar

theorem Size.succ_mono {m n : Nat} (up : m ≤ n) : succ m ≤ succ n := by
  simp only [succ]
  omega

theorem Method.requiredSamples_mono (method : Method) {degree degree' : Nat}
    (up : degree ≤ degree') : method.requiredSamples degree ≤ method.requiredSamples degree' := by
  cases method with
  | lagrange =>
    have size := Size.succ_mono up
    simp only [requiredSamples, Lagrange.requiredSamples]
    omega
  | linear => exact Nat.le_refl _

namespace Window

/-- The window starts and ends no later than another one. -/
structure NoLater (window other : Window) : Prop where
  first : window.first ≤ other.first
  stop : window.stop ≤ other.stop

/-- All samples of the window are in another one too. -/
def Within (inner outer : Window) : Prop :=
  ∀ i, inner.Contains i → outer.Contains i

theorem around_noLater {pivot pivot' : Nat} (up : pivot ≤ pivot') (count size : Nat) :
    (around pivot count size).NoLater (around pivot' count size) := by
  constructor
  · simp only [around]
    omega
  · simp only [around, stop]
    omega

/-- One sample more is a sample at one of the two ends. -/
theorem around_within_succ (pivot : Nat) {count size : Nat} (room : count < size) :
    (around pivot count size).Within (around pivot (count + 1) size) := by
  intro i held
  simp only [Contains, around, stop] at held ⊢
  omega

theorem around_within (pivot : Nat) {count count' size : Nat} (up : count ≤ count')
    (fits : count' ≤ size) : (around pivot count size).Within (around pivot count' size) := by
  induction up with
  | refl => exact fun i held => held
  | step _ ih =>
    exact fun i held => around_within_succ pivot fits i (ih (Nat.le_of_succ_le fits) i held)

variable {α : Type u} [Scalar α] [OrderedScalar α] {locations : List α}

theorem below_mono (increasing : locations.Pairwise (· < ·)) {x x' : α} (up : x ≤ x') :
    below x locations ≤ below x' locations := by
  rw [below_eq_countP increasing, below_eq_countP increasing]
  refine List.countP_mono_left fun a _ less => ?_
  exact decide_eq_true (lt_of_lt_of_le (of_decide_eq_true less) up)

theorem select_within (increasing : locations.Pairwise (· < ·)) (size : 2 ≤ locations.length) (x : α)
    {count count' : Nat} (two : 2 ≤ count) (up : count ≤ count') :
    ∃ inner outer, (select x locations count).result = .ok inner ∧
      (select x locations count').result = .ok outer ∧ inner.Within outer := by
  have gap := inGap_below x locations
  refine ⟨_, _, gap.select_eq increasing size two, gap.select_eq increasing size (two.trans up), ?_⟩
  apply around_within
  · omega
  · exact Nat.min_le_right _ _

/-- Of two windows of one size, the one for the greater query is not before the other at either end.
Of two windows for one query, the one for the greater size, or for the higher degree of a method, has
all samples of the other. -/
theorem select_monotone (increasing : locations.Pairwise (· < ·)) (size : 2 ≤ locations.length) :
    (∀ x x' count, x ≤ x' → 2 ≤ count →
      ∃ window window', (select x locations count).result = .ok window ∧
        (select x' locations count).result = .ok window' ∧ window.NoLater window') ∧
      (∀ x count count', 2 ≤ count → count ≤ count' →
        ∃ inner outer, (select x locations count).result = .ok inner ∧
          (select x locations count').result = .ok outer ∧ inner.Within outer) ∧
      ∀ (method : Method) x degree degree', degree ≤ degree' →
        ∃ inner outer, (select x locations (method.requiredSamples degree)).result = .ok inner ∧
          (select x locations (method.requiredSamples degree')).result = .ok outer ∧
          inner.Within outer := by
  refine ⟨?_, ?_, ?_⟩
  · intro x x' count up two
    refine ⟨_, _, (inGap_below x locations).select_eq increasing size two,
      (inGap_below x' locations).select_eq increasing size two, ?_⟩
    exact around_noLater (below_mono increasing up) _ _
  · exact fun x count count' two up => select_within increasing size x two up
  · intro method x degree degree' up
    exact select_within increasing size x (method.two_le_requiredSamples degree)
      (method.requiredSamples_mono up)

/-- The windows of two samples for the least and for the greatest query there is are those at the two
ends. A cubic takes one sample more than a parabola, and a query that is no number has its windows one
in the other as well. -/
theorem select_monotone_infinite :
    let locations : List Float := [0, 1, 2, 3, 4]
    (⟨0, 2⟩ : Window).NoLater ⟨3, 2⟩ ∧
      (select (-1 / 0) locations 2).result = .ok ⟨0, 2⟩ ∧
      (select (1 / 0) locations 2).result = .ok ⟨3, 2⟩ ∧
      (⟨0, 2⟩ : Window).Within ⟨0, 5⟩ ∧
      (select (0 / 0) locations 2).result = .ok ⟨0, 2⟩ ∧
      (select (0 / 0) locations 9).result = .ok ⟨0, 5⟩ ∧
      (⟨1, 3⟩ : Window).Within ⟨0, 4⟩ ∧
      (select 1.5 locations (Method.lagrange.requiredSamples 2)).result = .ok ⟨1, 3⟩ ∧
      (select 1.5 locations (Method.lagrange.requiredSamples 3)).result = .ok ⟨0, 4⟩ := by
  intro locations
  have least : (select (-1 / 0) locations 2).result = .ok ⟨0, 2⟩ := by decide +kernel
  have greatest : (select (1 / 0) locations 2).result = .ok ⟨3, 2⟩ := by decide +kernel
  have few : (select (0 / 0) locations 2).result = .ok ⟨0, 2⟩ := by decide +kernel
  have all : (select (0 / 0) locations 9).result = .ok ⟨0, 5⟩ := by decide +kernel
  have parabola : (select 1.5 locations (Method.lagrange.requiredSamples 2)).result =
    .ok ⟨1, 3⟩ := by decide +kernel
  have cubic : (select 1.5 locations (Method.lagrange.requiredSamples 3)).result =
    .ok ⟨0, 4⟩ := by decide +kernel
  have increasing : locations.Pairwise (· < ·) := by decide
  obtain ⟨moves, grows, degrees⟩ := select_monotone increasing (by decide)
  obtain ⟨_, _, found, found', later⟩ := moves (-1 / 0) (1 / 0) 2 (by decide) (by decide)
  obtain rfl := Except.ok.inj (found.symm.trans least)
  obtain rfl := Except.ok.inj (found'.symm.trans greatest)
  obtain ⟨_, _, inner, outer, within⟩ := grows (0 / 0) 2 9 (by decide) (by decide)
  obtain rfl := Except.ok.inj (inner.symm.trans few)
  obtain rfl := Except.ok.inj (outer.symm.trans all)
  obtain ⟨_, _, lower, higher, within'⟩ := degrees .lagrange 1.5 2 3 (by decide)
  obtain rfl := Except.ok.inj (lower.symm.trans parabola)
  obtain rfl := Except.ok.inj (higher.symm.trans cubic)
  exact ⟨later, least, greatest, within, few, all, within', parabola, cubic⟩

end Window

end Interpolant
