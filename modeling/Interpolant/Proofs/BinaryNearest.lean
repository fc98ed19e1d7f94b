import Interpolant.Proofs.BinaryResult

/-! # Rounding to a nearest number

No number of a format is nearer to the exact result than the rounded one. Rounding therefore keeps
to the order of the exact results, gives a result back unchanged that the format holds, and errs by
a bounded part of it.
-/

namespace Interpolant.Binary

open Float.Model Float.Model.UnpackedFloat

variable {spec : Format}

/-- The part of a result by which rounding errs at most. -/
def roundoff (spec : Format) : ℚ := 1 / 2 ^ spec.mantissaBits

/-- The least positive number of a format. -/
def leastUnit (spec : Format) : ℚ := 2 ^ spec.minExponent

theorem leastUnit_pos (spec : Format) : 0 < leastUnit spec := zpow_pos two_pos _

theorem mul_leastUnit_nonneg (spec : Format) (n : Nat) : 0 ≤ n * leastUnit spec :=
  mul_nonneg (Nat.cast_nonneg n) (leastUnit_pos spec).le

theorem roundoff_pos (spec : Format) : 0 < roundoff spec :=
  one_div_pos.mpr (pow_pos two_pos _)

/-- A format has two mantissa bits at least. -/
theorem roundoff_le (spec : Format) : roundoff spec ≤ 1 / 4 := by
  have width := spec.hm
  have bits : (2 ^ 2 : ℚ) ≤ 2 ^ spec.mantissaBits :=
    pow_le_pow_right₀ one_le_two (by rw [Format.mantissaBits]; omega)
  exact one_div_le_one_div_of_le (by norm_num) (by linarith)

theorem half_unit_eq (spec : Format) (t : ℤ) :
    (2 ^ t / 2 : ℚ) = roundoff spec * (2 ^ spec.mantissaBitsWithoutImplicit * 2 ^ t) := by
  rw [roundoff, Format.mantissaBits, pow_add]
  field_simp

theorem two_zpow_le_half {e t : ℤ} (below : e < t) : (2 ^ e : ℚ) ≤ 2 ^ t / 2 := by
  rw [div_eq_mul_inv, ← zpow_sub_one₀ two_ne_zero]
  exact zpow_le_zpow_right₀ one_le_two (by omega)

theorem exists_units_of_le {t e : ℤ} (le : t ≤ e) (k : ℤ) :
    ∃ j : ℤ, (k * 2 ^ e : ℚ) = j * 2 ^ t := by
  refine ⟨k * 2 ^ (e - t).toNat, ?_⟩
  have scale : (2 ^ e : ℚ) = 2 ^ (e - t).toNat * 2 ^ t := by
    rw [← zpow_natCast, ← zpow_add₀ two_ne_zero]
    congr 1
    omega
  rw [scale]
  push_cast
  ring

/-- Whole numbers of units are equal if they are less than a unit apart. -/
theorem units_eq_of_near {k j t : ℤ} (near : |(k * 2 ^ t - j * 2 ^ t : ℚ)| < 2 ^ t) : k = j := by
  have unit : (0 : ℚ) < 2 ^ t := zpow_pos two_pos t
  rw [← sub_mul, abs_mul, abs_of_pos unit, mul_lt_iff_lt_one_left unit] at near
  have apart : |k - j| < 1 := by exact_mod_cast near
  exact sub_eq_zero.mp (Int.abs_lt_one_iff.mp apart)

/-- A number of the format is a whole number of units, or below all those that have the unit in
their last place. -/
theorem units_or_small {u : UnpackedFloat} (canonical : Canonical spec u) (t : ℤ) :
    (∃ j : ℤ, value u = j * 2 ^ t) ∨ spec.minExponent < t ∧
      |value u| + 2 ^ t / 2 ≤ 2 ^ spec.mantissaBitsWithoutImplicit * 2 ^ t := by
  have none : ∃ j : ℤ, (0 : ℚ) = j * 2 ^ t := ⟨0, by rw [Int.cast_zero, zero_mul]⟩
  cases u with
  | finite s m e pos =>
    rcases le_or_gt t e with units | below
    · exact .inl (exists_units_of_le units (s.apply m))
    · refine .inr ⟨lt_of_le_of_lt canonical.minExponent_le below, ?_⟩
      have bound : (m : ℚ) + 1 ≤ 2 * 2 ^ spec.mantissaBitsWithoutImplicit := by
        exact_mod_cast two_pow_mantissaBits spec ▸ canonical.mantissa_lt
      rw [abs_value_finite]
      have scaled := mul_le_mul_of_nonneg_left (two_zpow_le_half below) (Nat.cast_nonneg m)
      have unit : (0 : ℚ) < 2 ^ t / 2 := half_pos (zpow_pos two_pos t)
      have full := mul_le_mul_of_nonneg_right bound unit.le
      linarith
  | _ => exact .inl none

/-- Both numbers of a magnitude belong to the format if one does. -/
theorem exists_of_magnitude {v : UnpackedFloat} (canonical : Canonical spec v) (s : Sign) :
    ∃ w, Canonical spec w ∧ value w = factor s * |value v| := by
  cases v with
  | finite s' m e pos =>
    refine ⟨.finite s m e pos, canonical, ?_⟩
    rw [value_finite, abs_value_finite]
  | _ =>
    refine ⟨.zero .positive, trivial, ?_⟩
    change (0 : ℚ) = _ * |0|
    rw [abs_zero, mul_zero]

theorem exists_least_units {u : UnpackedFloat} (canonical : Canonical spec u) :
    ∃ j : ℤ, value u = j * leastUnit spec :=
  (units_or_small canonical spec.minExponent).resolve_right fun small => lt_irrefl _ small.1

/-- Different numbers of the format are at least one rounding error of either apart. -/
theorem roundoff_mul_le_of_ne {u v : UnpackedFloat} (left : Canonical spec u)
    (right : Canonical spec v) (apart : value u ≠ value v) :
    roundoff spec * |value v| ≤ |value u - value v| := by
  cases v with
  | finite s m e pos =>
    have unit : (0 : ℚ) < 2 ^ e := zpow_pos two_pos e
    have magnitude := abs_value_finite s m e pos
    have bound : (m : ℚ) < 2 ^ spec.mantissaBits := by exact_mod_cast right.mantissa_lt
    rcases units_or_small left e with ⟨j, units⟩ | ⟨normal, small⟩
    · have far : (2 ^ e : ℚ) ≤ |value u - value (.finite s m e pos)| := by
        refine not_lt.mp fun near => apart ?_
        rw [units] at near ⊢
        rw [units_eq_of_near near]
        rfl
      refine le_trans ?_ far
      rw [magnitude, ← mul_assoc, roundoff, mul_le_iff_le_one_left unit, one_div_mul_eq_div]
      exact (div_le_one (pow_pos two_pos _)).mpr bound.le
    · have full : (2 ^ spec.mantissaBitsWithoutImplicit : ℚ) ≤ m := by
        exact_mod_cast right.leading normal
      have above := mul_le_mul_of_nonneg_right full unit.le
      have part : 0 ≤ 1 - roundoff spec := by linarith [roundoff_le spec]
      have away := abs_sub_abs_le_abs_sub (value (.finite s m e pos)) (value u)
      rw [half_unit_eq spec] at small
      rw [abs_sub_comm, magnitude] at away
      rw [magnitude]
      linarith [mul_nonneg part (sub_nonneg.mpr above)]
  | _ =>
    change roundoff spec * |0| ≤ _
    rw [abs_zero, mul_zero]
    exact abs_nonneg _

namespace Rounds

variable {q r : ℚ} {u v : UnpackedFloat}

theorem nearest (rounds : Rounds spec q u) (canonical : Canonical spec v) :
    |value u - q| ≤ |value v - q| := by
  obtain ⟨k, t, -, leading, same, near⟩ := rounds.near
  rcases units_or_small canonical t with ⟨j, units⟩ | ⟨normal, small⟩
  · by_cases equal : k = j
    · rw [same, units, equal]
    · have far : (2 ^ t : ℚ) ≤ |value u - value v| := by
        refine not_lt.mp fun close => equal ?_
        rw [same, units] at close
        exact units_eq_of_near close
      have way := abs_sub_le (value u) q (value v)
      rw [abs_sub_comm q] at way
      linarith
  · have away := abs_sub_abs_le_abs_sub q (value v)
    rw [abs_sub_comm] at away
    linarith [leading normal]

theorem le_of_le (rounds : Rounds spec q u) (canonical : Canonical spec v) (up : q ≤ value v) :
    value u ≤ value v := by
  have near := rounds.nearest canonical
  rw [abs_of_nonneg (sub_nonneg.mpr up)] at near
  linarith [le_abs_self (value u - q)]

theorem ge_of_ge (rounds : Rounds spec q u) (canonical : Canonical spec v) (down : value v ≤ q) :
    value v ≤ value u := by
  have near := rounds.nearest canonical
  rw [abs_of_nonpos (sub_nonpos.mpr down)] at near
  linarith [neg_abs_le (value u - q)]

/-- Rounding keeps to the order of the exact results. -/
theorem mono (left : Rounds spec q u) (right : Rounds spec r v) (less : q < r) :
    value u ≤ value v := by
  by_contra down
  rcases le_or_gt q (value v) with up | above
  · exact down (left.le_of_le right.canonical up)
  · -- Both exact results are above the smaller number, and nearer to it than they may be.
    have near := left.nearest right.canonical
    have far := right.nearest left.canonical
    rw [abs_of_neg (sub_neg.mpr above)] at near
    rw [abs_of_neg (sub_neg.mpr (above.trans less))] at far
    have between : |value u - r| < -(value v - r) :=
      abs_lt.mpr ⟨by linarith, by linarith [le_abs_self (value u - q)]⟩
    exact between.not_ge far

theorem error (rounds : Rounds spec q u) :
    |value u - q| ≤ roundoff spec * |q| + leastUnit spec / 2 := by
  obtain ⟨k, t, least, leading, -, near⟩ := rounds.near
  have part := mul_nonneg (roundoff_pos spec).le (abs_nonneg q)
  rcases least.lt_or_eq with normal | rfl
  · have bound := mul_le_mul_of_nonneg_left (leading normal) (roundoff_pos spec).le
    rw [← half_unit_eq] at bound
    linarith [leastUnit_pos spec]
  · exact near.trans (le_add_of_nonneg_left part)

/-- Nothing is lost below the least unit if the exact result is a whole number of it. -/
theorem error_of_units (rounds : Rounds spec q u) (units : ∃ j : ℤ, q = j * leastUnit spec) :
    |value u - q| ≤ roundoff spec * |q| := by
  obtain ⟨k, t, least, leading, same, near⟩ := rounds.near
  rcases least.lt_or_eq with normal | rfl
  · have bound := mul_le_mul_of_nonneg_left (leading normal) (roundoff_pos spec).le
    rw [← half_unit_eq] at bound
    exact near.trans bound
  · obtain ⟨j, units⟩ := units
    have equal : value u = q := by
      rw [same, units, leastUnit] at near ⊢
      rw [units_eq_of_near (near.trans_lt (half_lt_self (zpow_pos two_pos _)))]
    rw [equal, sub_self, abs_zero]
    exact mul_nonneg (roundoff_pos spec).le (abs_nonneg q)

/-- A result that the format has room for is not rounded. -/
theorem eq_of_units {z e : ℤ} (rounds : Rounds spec (z * 2 ^ e) u) (least : spec.minExponent ≤ e)
    (room : |z| < 2 ^ spec.mantissaBits) : value u = z * 2 ^ e := by
  obtain ⟨k, t, -, leading, same, near⟩ := rounds.near
  have bound : (|z| : ℚ) < 2 ^ spec.mantissaBits := by exact_mod_cast room
  rcases le_or_gt t e with units | above
  · obtain ⟨j, units⟩ := exists_units_of_le units z
    rw [same, units] at near
    rw [same, units, units_eq_of_near (near.trans_lt (half_lt_self (zpow_pos two_pos _)))]
  · have full := leading (lt_of_le_of_lt least above)
    rw [abs_mul, abs_of_pos (zpow_pos two_pos e : (0 : ℚ) < 2 ^ e)] at full
    have short := mul_lt_mul_of_pos_right bound (zpow_pos two_pos e : (0 : ℚ) < 2 ^ e)
    have wide := mul_le_mul_of_nonneg_left (two_zpow_le_half above)
      (pow_pos two_pos spec.mantissaBits : (0 : ℚ) < _).le
    rw [Format.mantissaBits, pow_add] at short wide
    linarith

/-- An exact result is rounded to the number that it is closer to than a quarter of a unit. -/
theorem eq_of_close (rounds : Rounds spec q u) (canonical : Canonical spec v)
    (close : 2 * |q - value v| < roundoff spec * |value v|) : value u = value v := by
  by_contra apart
  have far := roundoff_mul_le_of_ne rounds.canonical canonical apart
  have near := rounds.nearest canonical
  have way := abs_sub_le (value u) q (value v)
  rw [abs_sub_comm (value v)] at near
  linarith

theorem abs_le_of_abs_le (rounds : Rounds spec q u) (canonical : Canonical spec v)
    (bound : |q| ≤ |value v|) : |value u| ≤ |value v| := by
  obtain ⟨w, upper, top⟩ := exists_of_magnitude canonical .positive
  obtain ⟨w', lower, bottom⟩ := exists_of_magnitude canonical .negative
  rw [factor, one_mul] at top
  rw [factor, neg_one_mul] at bottom
  obtain ⟨down, up⟩ := abs_le.mp bound
  refine abs_le.mpr ⟨bottom ▸ rounds.ge_of_ge lower (bottom ▸ down), ?_⟩
  exact top ▸ rounds.le_of_le upper (top ▸ up)

end Rounds

/-- A number of the format is in its range, or an infinity takes its place. -/
theorem held_cases (spec : Format) {u : UnpackedFloat} (finite : u.isFinite) :
    held spec u = u ∨ 0 < value u ∧ held spec u = .infinity .positive ∨
      value u < 0 ∧ held spec u = .infinity .negative := by
  cases u with
  | notANumber => contradiction
  | infinity => contradiction
  | zero => exact .inl rfl
  | finite s m e pos =>
    rw [held]
    split
    · cases s with
      | positive => exact .inr (.inl ⟨positive_pos m e pos, rfl⟩)
      | negative => exact .inr (.inr ⟨negative_neg m e pos, rfl⟩)
    · exact .inl rfl

/-- What is no greater than a number in range is in range. -/
theorem held_of_abs_le {u v : UnpackedFloat} (left : Canonical spec u) (right : Canonical spec v)
    (finite : v.isFinite) (range : held spec v = v) (bound : |value u| ≤ |value v|) :
    held spec u = u := by
  cases u with
  | finite s m e pos =>
    rw [held]
    refine if_neg fun beyond => ?_
    have positive : (0 : ℚ) < m * 2 ^ e := mul_pos (Nat.cast_pos.mpr pos) (zpow_pos two_pos e)
    rw [abs_value_finite] at bound
    cases v with
    | notANumber => contradiction
    | infinity => contradiction
    | zero =>
      change _ ≤ |(0 : ℚ)| at bound
      rw [abs_zero] at bound
      exact absurd positive bound.not_gt
    | finite s' m' e' pos' =>
      have inside : ¬ maxExponent spec < e' := fun above => by
        rw [held, if_pos above] at range
        contradiction
      have less := magnitude_lt right left (lt_of_le_of_lt (not_lt.mp inside) beyond)
      rw [abs_value_finite] at bound
      exact absurd less bound.not_gt
  | _ => rfl

/-- The range of a format goes up to the numbers that have the largest exponent. -/
theorem held_of_abs_lt {u : UnpackedFloat} (canonical : Canonical spec u)
    (normal : spec.minExponent ≤ maxExponent spec)
    (bound : |value u| < 2 ^ (maxExponent spec + spec.mantissaBits)) : held spec u = u := by
  cases u with
  | finite s m e pos =>
    rw [held]
    refine if_neg fun beyond => ?_
    have full : (2 ^ spec.mantissaBitsWithoutImplicit : ℚ) ≤ m := by
      exact_mod_cast canonical.leading (lt_of_le_of_lt normal beyond)
    rw [abs_value_finite] at bound
    refine bound.not_ge ?_
    calc (2 ^ (maxExponent spec + spec.mantissaBits) : ℚ)
      _ = 2 ^ spec.mantissaBitsWithoutImplicit * 2 ^ (maxExponent spec + 1) := by
        rw [← zpow_natCast, ← zpow_add₀ two_ne_zero, Format.mantissaBits]
        congr 1
        push_cast
        ring
      _ ≤ m * 2 ^ e := mul_le_mul full (zpow_le_zpow_right₀ one_le_two beyond)
        (zpow_pos two_pos _).le (Nat.cast_nonneg m)
  | _ => rfl

/-- Results that are too large keep their order as infinities. -/
theorem extended_held_mono {u v : UnpackedFloat} (left : Canonical spec u)
    (right : Canonical spec v) (uFinite : u.isFinite) (vFinite : v.isFinite)
    (up : value u ≤ value v) : extended (held spec u) ≤ extended (held spec v) := by
  rcases held_cases spec uFinite with inside | ⟨above, large⟩ | ⟨-, large⟩
  · rcases held_cases spec vFinite with inside' | ⟨-, large⟩ | ⟨below, large⟩
    · rw [inside, inside', extended_of_isFinite uFinite, extended_of_isFinite vFinite]
      exact WithBot.coe_le_coe.mpr (WithTop.coe_le_coe.mpr up)
    · rw [large]
      exact le_top
    · have range := held_of_abs_le right left uFinite inside (by
        rw [abs_of_neg below, abs_of_neg (up.trans_lt below)]
        exact neg_le_neg up)
      rw [large] at range
      subst range
      contradiction
  · have range : held spec v ≠ v := fun inside => by
      have range := held_of_abs_le left right vFinite inside (by
        rw [abs_of_pos above, abs_of_pos (above.trans_le up)]
        exact up)
      rw [large] at range
      subst range
      contradiction
    rcases held_cases spec vFinite with inside' | ⟨-, large'⟩ | ⟨below, -⟩
    · exact absurd inside' range
    · rw [large, large']
    · exact absurd (above.trans_le up) below.not_gt
  · rw [large]
    exact bot_le

end Interpolant.Binary
