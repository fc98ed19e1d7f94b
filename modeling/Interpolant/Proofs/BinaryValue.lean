import Mathlib

/-! # The values of binary floating point numbers

An unpacked number stands for a rational number, an infinity or no number at all. One format stores
a rational number in one way only, apart from the sign of zero, so that comparing two stored numbers
part by part is comparing what they stand for.
-/

namespace Interpolant.Binary

open Float.Model Float.Model.UnpackedFloat

/-- A mantissa and an exponent as the format stores them, whatever the largest exponent is. -/
structure Stored (spec : Format) (m : Nat) (e : Int) : Prop where
  mantissa_lt : m < 2 ^ spec.mantissaBits
  minExponent_le : spec.minExponent ≤ e
  leading : spec.minExponent < e → 2 ^ spec.mantissaBitsWithoutImplicit ≤ m

/-- Finite numbers are stored in the one way that the format has for them. -/
def Canonical (spec : Format) : UnpackedFloat → Prop
  | .finite _ m e _ => Stored spec m e
  | _ => True

/-- The rational number that a finite number stands for. -/
def value : UnpackedFloat → ℚ
  | .finite s m e _ => s.apply m * 2 ^ e
  | _ => 0

/-- What a number stands for, with an infinity at either end. -/
def extended : UnpackedFloat → WithBot (WithTop ℚ)
  | .infinity .negative => ⊥
  | .infinity .positive => (⊤ : WithTop ℚ)
  | u => (value u : WithTop ℚ)

variable {spec : Format}

theorem two_pow_mantissaBits (spec : Format) :
    2 ^ spec.mantissaBits = 2 * 2 ^ spec.mantissaBitsWithoutImplicit := by
  rw [Format.mantissaBits, Nat.pow_add, Nat.pow_one]

theorem value_positive (m : Nat) (e : Int) (pos : 0 < m) :
    value (.finite .positive m e pos) = m * 2 ^ e := by
  simp only [value, Sign.apply, Int.cast_natCast]

theorem value_negative (m : Nat) (e : Int) (pos : 0 < m) :
    value (.finite .negative m e pos) = -(m * 2 ^ e) := by
  simp only [value, Sign.apply, Int.cast_neg, Int.cast_natCast, neg_mul]

theorem positive_pos (m : Nat) (e : Int) (pos : 0 < m) :
    0 < value (.finite .positive m e pos) := by
  rw [value_positive]
  exact mul_pos (Nat.cast_pos.mpr pos) (zpow_pos two_pos e)

theorem negative_neg (m : Nat) (e : Int) (pos : 0 < m) :
    value (.finite .negative m e pos) < 0 := by
  rw [value_negative]
  exact neg_neg_of_pos (mul_pos (Nat.cast_pos.mpr pos) (zpow_pos two_pos e))

theorem value_ne_zero (s : Sign) (m : Nat) (e : Int) (pos : 0 < m) :
    value (.finite s m e pos) ≠ 0 := by
  cases s with
  | positive => exact (positive_pos m e pos).ne'
  | negative => exact (negative_neg m e pos).ne

/-- The larger of two exponents belongs to the larger number. -/
theorem magnitude_lt {m₁ m₂ : Nat} {e₁ e₂ : Int} (left : Stored spec m₁ e₁)
    (right : Stored spec m₂ e₂) (less : e₁ < e₂) : (m₁ * 2 ^ e₁ : ℚ) < m₂ * 2 ^ e₂ := by
  have bound : (m₁ : ℚ) < 2 * 2 ^ spec.mantissaBitsWithoutImplicit := by
    exact_mod_cast two_pow_mantissaBits spec ▸ left.mantissa_lt
  have full : (2 ^ spec.mantissaBitsWithoutImplicit : ℚ) ≤ m₂ := by
    exact_mod_cast right.leading (lt_of_le_of_lt left.minExponent_le less)
  calc (m₁ * 2 ^ e₁ : ℚ) < 2 * 2 ^ spec.mantissaBitsWithoutImplicit * 2 ^ e₁ :=
        mul_lt_mul_of_pos_right bound (zpow_pos two_pos e₁)
    _ = 2 ^ spec.mantissaBitsWithoutImplicit * 2 ^ (e₁ + 1) := by
        rw [zpow_add_one₀ two_ne_zero]
        ring
    _ ≤ m₂ * 2 ^ e₂ :=
        mul_le_mul full (zpow_le_zpow_right₀ one_le_two less) (zpow_pos two_pos _).le
          (Nat.cast_nonneg m₂)

theorem compare_parts {m₁ m₂ : Nat} {e₁ e₂ : Int} (left : Stored spec m₁ e₁)
    (right : Stored spec m₂ e₂) :
    (compare e₁ e₂).then (compare m₁ m₂) = cmp (m₁ * 2 ^ e₁ : ℚ) (m₂ * 2 ^ e₂) := by
  rcases lt_trichotomy e₁ e₂ with less | rfl | greater
  · rw [compare_lt_iff_lt.mpr less, (cmp_eq_lt_iff _ _).mpr (magnitude_lt left right less)]
    rfl
  · rw [compare_eq_iff_eq.mpr rfl]
    have scaled : StrictMono fun m : Nat => (m * 2 ^ e₁ : ℚ) := fun a b less =>
      mul_lt_mul_of_pos_right (Nat.cast_lt.mpr less) (zpow_pos two_pos e₁)
    rw [scaled.cmp_map_eq, cmp_eq_compare]
    rfl
  · rw [compare_gt_iff_gt.mpr greater, (cmp_eq_gt_iff _ _).mpr (magnitude_lt right left greater)]
    rfl

private theorem some_lt {β : Type} [LinearOrder β] {a b : β} (less : a < b) :
    some Ordering.lt = some (cmp a b) :=
  congrArg some ((cmp_eq_lt_iff a b).mpr less).symm

private theorem some_gt {β : Type} [LinearOrder β] {a b : β} (greater : b < a) :
    some Ordering.gt = some (cmp a b) :=
  congrArg some ((cmp_eq_gt_iff a b).mpr greater).symm

private theorem compare_finite {m₁ m₂ : Nat} {e₁ e₂ : Int} (left : Stored spec m₁ e₁)
    (right : Stored spec m₂ e₂) (s₁ s₂ : Sign) (pos₁ : 0 < m₁) (pos₂ : 0 < m₂) :
    (UnpackedFloat.finite s₁ m₁ e₁ pos₁).compare (.finite s₂ m₂ e₂ pos₂) =
      some (cmp (value (.finite s₁ m₁ e₁ pos₁)) (value (.finite s₂ m₂ e₂ pos₂))) := by
  cases s₁ with
  | positive =>
    cases s₂ with
    | positive =>
      rw [value_positive, value_positive, ← compare_parts left right]
      rfl
    | negative => exact some_gt ((negative_neg m₂ e₂ pos₂).trans (positive_pos m₁ e₁ pos₁))
  | negative =>
    cases s₂ with
    | positive => exact some_lt ((negative_neg m₁ e₁ pos₁).trans (positive_pos m₂ e₂ pos₂))
    | negative =>
      have turned : StrictAnti fun q : ℚ => -q := fun a b less => neg_lt_neg less
      rw [value_negative, value_negative, turned.cmp_map_eq, ← cmp_swap,
        ← compare_parts left right]
      rfl

/-- Finite numbers compare as their values do. -/
theorem compare_of_isFinite {u v : UnpackedFloat} (left : Canonical spec u)
    (right : Canonical spec v) (uFinite : u.isFinite) (vFinite : v.isFinite) :
    u.compare v = some (cmp (value u) (value v)) := by
  cases u with
  | notANumber => contradiction
  | infinity => contradiction
  | zero =>
    cases v with
    | notANumber => contradiction
    | infinity => contradiction
    | zero => rfl
    | finite s m e pos =>
      cases s with
      | positive => exact some_lt (positive_pos m e pos)
      | negative => exact some_gt (negative_neg m e pos)
  | finite s m e pos =>
    cases v with
    | notANumber => contradiction
    | infinity => contradiction
    | zero =>
      cases s with
      | positive => exact some_gt (positive_pos m e pos)
      | negative => exact some_lt (negative_neg m e pos)
    | finite s' m' e' pos' => exact compare_finite left right s s' pos pos'

theorem extended_of_isFinite {u : UnpackedFloat} (finite : u.isFinite) :
    extended u = (value u : WithTop ℚ) := by
  cases u <;> first | rfl | contradiction

private theorem bot_lt_extended {u : UnpackedFloat} (finite : u.isFinite) : ⊥ < extended u := by
  rw [extended_of_isFinite finite]
  exact WithBot.bot_lt_coe _

private theorem extended_lt_top {u : UnpackedFloat} (finite : u.isFinite) :
    extended u < (⊤ : WithTop ℚ) := by
  rw [extended_of_isFinite finite]
  exact WithBot.coe_lt_coe.mpr (WithTop.coe_lt_top _)

private theorem extended_strictMono :
    StrictMono fun q : ℚ => ((q : WithTop ℚ) : WithBot (WithTop ℚ)) :=
  WithBot.coe_strictMono.comp WithTop.coe_strictMono

private theorem compare_infinity_left (s : Sign) {v : UnpackedFloat} (finite : v.isFinite) :
    (UnpackedFloat.infinity s).compare v = some (cmp (extended (.infinity s)) (extended v)) := by
  cases s with
  | negative =>
    refine Eq.trans ?_ (some_lt (bot_lt_extended finite))
    cases v <;> first | rfl | contradiction
  | positive =>
    refine Eq.trans ?_ (some_gt (extended_lt_top finite))
    cases v <;> first | rfl | contradiction

private theorem compare_infinity_right (s : Sign) {u : UnpackedFloat} (finite : u.isFinite) :
    u.compare (.infinity s) = some (cmp (extended u) (extended (.infinity s))) := by
  cases s with
  | negative =>
    refine Eq.trans ?_ (some_gt (bot_lt_extended finite))
    cases u <;> first | rfl | contradiction
  | positive =>
    refine Eq.trans ?_ (some_lt (extended_lt_top finite))
    cases u <;> first | rfl | contradiction

private theorem compare_infinities (s s' : Sign) :
    (UnpackedFloat.infinity s).compare (.infinity s') =
      some (cmp (extended (.infinity s)) (extended (.infinity s'))) := by
  cases s <;> cases s' <;> rfl

theorem isNaN_of_isFinite {u : UnpackedFloat} (finite : u.isFinite) : u.isNaN = false := by
  cases u with
  | notANumber => contradiction
  | _ => rfl

theorem isFinite_or_infinity {u : UnpackedFloat} (number : u.isNaN = false) :
    u.isFinite ∨ ∃ s, u = .infinity s := by
  cases u with
  | notANumber => contradiction
  | infinity s => exact .inr ⟨s, rfl⟩
  | zero => exact .inl rfl
  | finite => exact .inl rfl

/-- Numbers compare as what they stand for. -/
theorem compare_eq_cmp {u v : UnpackedFloat} (left : Canonical spec u) (right : Canonical spec v)
    (uNumber : u.isNaN = false) (vNumber : v.isNaN = false) :
    u.compare v = some (cmp (extended u) (extended v)) := by
  rcases isFinite_or_infinity uNumber with uFinite | ⟨s, rfl⟩
  · rcases isFinite_or_infinity vNumber with vFinite | ⟨s', rfl⟩
    · rw [compare_of_isFinite left right uFinite vFinite, extended_of_isFinite uFinite,
        extended_of_isFinite vFinite, extended_strictMono.cmp_map_eq]
    · exact compare_infinity_right s' uFinite
  · rcases isFinite_or_infinity vNumber with vFinite | ⟨s', rfl⟩
    · exact compare_infinity_left s vFinite
    · exact compare_infinities s s'

private theorem compared_iff (test : Option Ordering → Bool) (nothing : test none = false)
    {u v : UnpackedFloat} (left : Canonical spec u) (right : Canonical spec v) {related : Prop}
    (found : test (some (cmp (extended u) (extended v))) ↔ related) :
    test (u.compare v) ↔ u.isNaN = false ∧ v.isNaN = false ∧ related := by
  by_cases numbers : u.isNaN = false ∧ v.isNaN = false
  · rw [compare_eq_cmp left right numbers.1 numbers.2, found]
    exact ⟨fun holds => ⟨numbers.1, numbers.2, holds⟩, fun ⟨_, _, holds⟩ => holds⟩
  · have incomparable : u.compare v = none := by
      cases u <;> cases v <;> first | rfl | exact absurd ⟨rfl, rfl⟩ numbers
    rw [incomparable, nothing]
    exact ⟨fun holds => by contradiction, fun ⟨uNumber, vNumber, _⟩ =>
      absurd ⟨uNumber, vNumber⟩ numbers⟩

theorem le_iff {u v : UnpackedFloat} (left : Canonical spec u) (right : Canonical spec v) :
    u.le v ↔ u.isNaN = false ∧ v.isNaN = false ∧ extended u ≤ extended v := by
  refine compared_iff (fun o => o.any (·.isLE)) rfl left right ?_
  rw [Option.any_some, Ordering.isLE_iff_ne_gt, cmp_eq_gt_iff, not_lt]

theorem lt_iff {u v : UnpackedFloat} (left : Canonical spec u) (right : Canonical spec v) :
    u.lt v ↔ u.isNaN = false ∧ v.isNaN = false ∧ extended u < extended v := by
  refine compared_iff (· == some .lt) rfl left right ?_
  rw [beq_iff_eq, Option.some.injEq, cmp_eq_lt_iff]

theorem beq_iff {u v : UnpackedFloat} (left : Canonical spec u) (right : Canonical spec v) :
    u.beq v ↔ u.isNaN = false ∧ v.isNaN = false ∧ extended u = extended v := by
  refine compared_iff (· == some .eq) rfl left right ?_
  rw [beq_iff_eq, Option.some.injEq, cmp_eq_eq_iff]

theorem beq_zero_iff (u : UnpackedFloat) (s : Sign) :
    u.beq (.zero s) ↔ ∃ s', u = .zero s' := by
  cases u with
  | notANumber => exact ⟨nofun, nofun⟩
  | infinity s' => cases s' <;> exact ⟨nofun, nofun⟩
  | zero s' => exact ⟨fun _ => ⟨s', rfl⟩, fun _ => rfl⟩
  | finite s' => cases s' <;> exact ⟨nofun, nofun⟩

theorem beq_self {u : UnpackedFloat} (number : u.isNaN = false) : u.beq u := by
  cases u with
  | notANumber => contradiction
  | infinity s => cases s <;> rfl
  | zero s => rfl
  | finite s m e pos =>
    cases s <;> simp [UnpackedFloat.beq, UnpackedFloat.compare]

private theorem parts_eq_of_compare {e e' : Int} {m m' : Nat}
    (same : (compare e e').then (compare m m') = .eq) : e = e' ∧ m = m' := by
  obtain ⟨exponents, mantissas⟩ := Ordering.then_eq_eq.mp same
  exact ⟨compare_eq_iff_eq.mp exponents, compare_eq_iff_eq.mp mantissas⟩

/-- Numbers that compare equal are the same, but for the sign of zero. -/
theorem eq_or_zeros_of_beq {u v : UnpackedFloat} (equal : u.beq v) :
    u = v ∨ (∃ s, u = .zero s) ∧ ∃ s, v = .zero s := by
  cases u with
  | notANumber => contradiction
  | zero s =>
    cases v with
    | zero s' => exact .inr ⟨⟨s, rfl⟩, ⟨s', rfl⟩⟩
    | infinity s' => cases s' <;> contradiction
    | finite s' => cases s' <;> contradiction
    | notANumber => contradiction
  | infinity s =>
    cases v with
    | infinity s' => cases s <;> cases s' <;> first | exact .inl rfl | contradiction
    | _ => cases s <;> contradiction
  | finite s m e pos =>
    cases v with
    | finite s' m' e' pos' =>
      cases s with
      | positive =>
        cases s' with
        | positive =>
          obtain ⟨rfl, rfl⟩ := parts_eq_of_compare (Option.some.inj (beq_iff_eq.mp equal))
          exact .inl rfl
        | negative => contradiction
      | negative =>
        cases s' with
        | positive => contradiction
        | negative =>
          have swapped := Option.some.inj (beq_iff_eq.mp equal)
          obtain ⟨rfl, rfl⟩ := parts_eq_of_compare (Ordering.swap_inj.mp swapped)
          exact .inl rfl
    | infinity s' => cases s <;> cases s' <;> contradiction
    | zero => cases s <;> contradiction
    | notANumber => contradiction

end Interpolant.Binary
