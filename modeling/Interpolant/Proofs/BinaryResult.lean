import Interpolant.Proofs.BinaryArithmetic

/-! # What an operation rounds

Two bits stay behind for all those that rounding drops. They place the exact amount below, at or
above the middle between two mantissas, so that the rounded number is no more than half a unit of
its last place away from the exact one. Every operation on finite numbers computes its exact result,
with such bits for what it leaves out, and rounds it once.
-/

namespace Interpolant.Binary

open Float.Model Float.Model.UnpackedFloat

variable {spec : Format}

/-- The accuracy of a mantissa tells where the exact amount `x` lies between it and the next one. -/
def Located (x : ℚ) (m : Nat) : Accuracy → Prop
  | .exact => x = m
  | .inexact .lt => m < x ∧ x < m + 1 / 2
  | .inexact .eq => x = m + 1 / 2
  | .inexact .gt => m + 1 / 2 < x ∧ x < m + 1

/-- A mantissa with its two residual bits stands for the exact amount `x`. -/
def Stands (x : ℚ) (em : ExtendedMantissa) : Prop := Located x em.mantissa em.accuracy

theorem Located.stands {x : ℚ} {m : Nat} {accuracy : Accuracy} (located : Located x m accuracy) :
    Stands x (ExtendedMantissa.ofMantissaAndAccuracy m accuracy) := by
  rcases accuracy with _ | (_ | _ | _) <;> exact located

theorem Located.mantissa_le {x : ℚ} {m : Nat} {accuracy : Accuracy}
    (located : Located x m accuracy) : (m : ℚ) ≤ x := by
  rcases accuracy with _ | (_ | _ | _) <;> simp only [Located] at located <;> linarith

/-- The last bit of the mantissa becomes the round bit, and the sticky bit keeps the rest. -/
theorem Stands.shiftRightOne {x : ℚ} {em : ExtendedMantissa} (stands : Stands x em) :
    Stands (x / 2) em.shiftRightOne := by
  obtain ⟨m, round, sticky⟩ := em
  obtain ⟨half, rfl | rfl⟩ := Nat.even_or_odd' m
  · have shifted : 2 * half / 2 = half ∧ (2 * half % 2 != 0) = false := by simp
    cases round <;> cases sticky <;>
      simp only [Stands, Located, ExtendedMantissa.accuracy, ExtendedMantissa.shiftRightOne,
        shifted, Bool.or_self, Bool.or_true, Bool.or_false, Nat.cast_mul,
        Nat.cast_ofNat] at stands ⊢
    · linarith
    all_goals constructor <;> linarith
  · have shifted : (2 * half + 1) / 2 = half ∧ ((2 * half + 1) % 2 != 0) = true := by
      constructor
      · omega
      · simp
    cases round <;> cases sticky <;>
      simp only [Stands, Located, ExtendedMantissa.accuracy, ExtendedMantissa.shiftRightOne,
        shifted, Bool.or_self, Bool.or_true, Bool.or_false, Nat.cast_add, Nat.cast_mul,
        Nat.cast_ofNat, Nat.cast_one] at stands ⊢
    · linarith
    all_goals constructor <;> linarith

theorem Stands.shiftRight {x : ℚ} {em : ExtendedMantissa} (stands : Stands x em) (n : Nat) :
    Stands (x / 2 ^ n) (em >>> n) := by
  change Stands _ (n.repeat ExtendedMantissa.shiftRightOne em)
  induction n with
  | zero => rwa [pow_zero, div_one]
  | succ n ih =>
    rw [Nat.repeat, pow_succ, ← div_div]
    exact ih.shiftRightOne

theorem Stands.rounded_near {x : ℚ} {em : ExtendedMantissa} (stands : Stands x em) :
    |(em.roundedMantissa : ℚ) - x| ≤ 1 / 2 := by
  obtain ⟨m, round, sticky⟩ := em
  rw [abs_le]
  cases round <;> cases sticky <;>
    simp only [Stands, Located, ExtendedMantissa.roundedMantissa, ExtendedMantissa.accuracy,
      Accuracy.roundToNearestEven] at stands ⊢
  · constructor <;> linarith
  · constructor <;> linarith
  · -- A tie goes to the even one of both mantissas.
    rcases Nat.mod_two_eq_zero_or_one m with even | odd
    · rw [even]; push_cast; constructor <;> linarith
    · rw [odd]; push_cast; constructor <;> linarith
  · push_cast; constructor <;> linarith

/-- The factor that a sign stands for. -/
def factor : Sign → ℚ
  | .positive => 1
  | .negative => -1

theorem value_finite (s : Sign) (m : Nat) (e : Int) (pos : 0 < m) :
    value (.finite s m e pos) = factor s * (m * 2 ^ e) := by
  cases s with
  | positive => rw [value_positive, factor, one_mul]
  | negative => rw [value_negative, factor, neg_one_mul]

@[simp] theorem factor_neg (s : Sign) : factor (-s) = -factor s := by
  cases s with
  | positive => rfl
  | negative => exact (neg_neg 1).symm

theorem factor_mul (s t : Sign) : factor (s * t) = factor s * factor t := by
  cases s <;> cases t <;> simp only [factor, mul_one, one_mul, neg_mul_neg]

theorem factor_div (s t : Sign) : factor (s / t) = factor s / factor t := by
  cases s <;> cases t <;> simp only [factor, div_one, div_neg, neg_neg] <;> rfl

theorem apply_eq (s : Sign) (n : Int) : (s.apply n : ℚ) = factor s * n := by
  cases s with
  | positive => rw [Sign.apply, factor, one_mul]
  | negative => rw [Sign.apply, factor, neg_one_mul, Int.cast_neg]

theorem abs_factor (s : Sign) : |factor s| = 1 := by
  cases s <;> simp only [factor, abs_neg, abs_one]

theorem abs_value_finite (s : Sign) (m : Nat) (e : Int) (pos : 0 < m) :
    |value (.finite s m e pos)| = m * 2 ^ e := by
  have positive : (0 : ℚ) < m * 2 ^ e := mul_pos (Nat.cast_pos.mpr pos) (zpow_pos two_pos e)
  rw [value_finite, abs_mul, abs_factor, one_mul, abs_of_pos positive]

/-- A number of the format that rounding may give for `q`: a whole number of units in the last place
of `q`, and no more than half a unit away. -/
structure Rounds (spec : Format) (q : ℚ) (u : UnpackedFloat) : Prop where
  canonical : Canonical spec u
  finite : u.isFinite
  near : ∃ k t : ℤ, spec.minExponent ≤ t ∧
    (spec.minExponent < t → 2 ^ spec.mantissaBitsWithoutImplicit * 2 ^ t ≤ |q|) ∧
    value u = k * 2 ^ t ∧ |value u - q| ≤ 2 ^ t / 2

theorem rounds_zero (spec : Format) (s : Sign) : Rounds spec 0 (.zero s) where
  canonical := trivial
  finite := rfl
  near := by
    refine ⟨0, spec.minExponent, le_refl _, fun above => absurd above (lt_irrefl _), ?_, ?_⟩
    · rw [Int.cast_zero, zero_mul]
      rfl
    · change |(0 - 0 : ℚ)| ≤ _
      rw [sub_zero, abs_zero]
      exact (half_pos (zpow_pos two_pos _)).le

/-- A number of the format is rounded to itself. -/
theorem rounds_self {u : UnpackedFloat} (canonical : Canonical spec u) (finite : u.isFinite) :
    Rounds spec (value u) u := by
  cases u with
  | notANumber => contradiction
  | infinity => contradiction
  | zero s => exact rounds_zero spec s
  | finite s m e pos =>
    refine ⟨canonical, rfl, s.apply m, e, canonical.minExponent_le, fun above => ?_, rfl, ?_⟩
    · rw [abs_value_finite]
      refine mul_le_mul_of_nonneg_right ?_ (zpow_pos two_pos e).le
      exact_mod_cast canonical.leading above
    · rw [sub_self, abs_zero]
      exact (half_pos (zpow_pos two_pos _)).le

theorem value_roundWithAccuracy {m : Nat} {e : Int}
    (room : e ≤ spec.targetExponent (totalExponent m e)) (s : Sign) (accuracy : Accuracy) :
    value (roundWithAccuracy spec s m e accuracy) =
      factor s * ((ExtendedMantissa.ofMantissaAndAccuracy m accuracy >>>
        (spec.targetExponent (totalExponent m e) - e).toNat).roundedMantissa *
          2 ^ spec.targetExponent (totalExponent m e)) := by
  have shifted := shiftToExponent_eq room m accuracy
  obtain ⟨least, most⟩ := roundedMantissa_bounds
    (ExtendedMantissa.ofMantissaAndAccuracy m accuracy >>>
      (spec.targetExponent (totalExponent m e) - e).toNat)
  rw [shiftRight_mantissa, ofMantissaAndAccuracy_mantissa] at least most
  obtain ⟨em, e', carried, -, same⟩ := stored_carried (stored_shifted room) least most
  simp only [roundWithAccuracy, shiftToTargetExponent] at carried ⊢
  simp only [shifted, carried]
  split
  · next none =>
    rw [← same, none, Nat.cast_zero, zero_mul, mul_zero]
    rfl
  · rw [value_finite, same]

theorem isFinite_roundWithAccuracy (spec : Format) (s : Sign) (m : Nat) (e : Int)
    (accuracy : Accuracy) : (roundWithAccuracy spec s m e accuracy).isFinite := by
  simp only [roundWithAccuracy]
  split <;> rfl

theorem rounds_roundWithAccuracy {m : Nat} {e : Int} {x : ℚ} {accuracy : Accuracy}
    (room : e ≤ spec.targetExponent (totalExponent m e)) (located : Located x m accuracy)
    (s : Sign) : Rounds spec (factor s * (x * 2 ^ e)) (roundWithAccuracy spec s m e accuracy) := by
  refine ⟨canonical_roundWithAccuracy room s accuracy, isFinite_roundWithAccuracy .., ?_⟩
  have kept := stored_shifted room
  have near := (located.stands.shiftRight
    (spec.targetExponent (totalExponent m e) - e).toNat).rounded_near
  have value_eq := value_roundWithAccuracy room s accuracy
  obtain ⟨d, shift⟩ : ∃ d : Nat, spec.targetExponent (totalExponent m e) = e + d :=
    ⟨(spec.targetExponent (totalExponent m e) - e).toNat, by omega⟩
  have dropped : (e + d - e : ℤ).toNat = d := by omega
  rw [shift, dropped] at kept near value_eq
  generalize (ExtendedMantissa.ofMantissaAndAccuracy m accuracy >>> d).roundedMantissa = r
    at near value_eq
  have unit : (0 : ℚ) < 2 ^ (e + d) := zpow_pos two_pos _
  have exact : x * 2 ^ e = x / 2 ^ d * 2 ^ (e + d) := by
    rw [zpow_add₀ two_ne_zero, zpow_natCast]
    field_simp
  refine ⟨s.apply r, e + d, kept.minExponent_le, fun above => ?_, ?_, ?_⟩
  · have full : (2 ^ spec.mantissaBitsWithoutImplicit : ℚ) ≤ x / 2 ^ d := by
      rw [le_div_iff₀ (pow_pos two_pos d)]
      refine le_trans ?_ located.mantissa_le
      exact_mod_cast (Nat.le_div_iff_mul_le (Nat.two_pow_pos d)).mp (kept.leading above)
    rw [exact, abs_mul, abs_factor, one_mul]
    exact (mul_le_mul_of_nonneg_right full unit.le).trans (le_abs_self _)
  · rw [value_eq, apply_eq, Int.cast_natCast, mul_assoc]
  · rw [value_eq, exact, ← mul_sub, ← sub_mul, abs_mul, abs_mul, abs_factor, one_mul,
      abs_of_pos unit]
    linarith [mul_le_mul_of_nonneg_right near unit.le]

theorem rounds_round (spec : Format) {m : Nat} (pos : 0 < m) (e : Int) (s : Sign) :
    Rounds spec (factor s * (m * 2 ^ e)) (UnpackedFloat.round spec s m e) := by
  have same := totalExponent_shiftLeft pos e (e - spec.targetExponent (totalExponent m e)).toNat
  have room : e - (e - spec.targetExponent (totalExponent m e)).toNat ≤ spec.targetExponent
      (totalExponent (m <<< (e - spec.targetExponent (totalExponent m e)).toNat)
        (e - (e - spec.targetExponent (totalExponent m e)).toNat)) := by
    rw [same]
    omega
  have exact : ((m <<< (e - spec.targetExponent (totalExponent m e)).toNat : Nat) : ℚ) *
      2 ^ (e - (e - spec.targetExponent (totalExponent m e)).toNat : ℤ) = m * 2 ^ e := by
    rw [Nat.shiftLeft_eq, zpow_sub₀ two_ne_zero, zpow_natCast]
    push_cast
    field_simp
  have shifted : Located _ (m <<< (e - spec.targetExponent (totalExponent m e)).toNat) .exact := rfl
  have lowered := rounds_roundWithAccuracy room shifted s
  rw [exact] at lowered
  exact lowered

theorem rounds_normalize (spec : Format) (z : ℤ) (e : Int) (zeroSign : Sign) :
    Rounds spec (z * 2 ^ e) (UnpackedFloat.normalize spec z e zeroSign) := by
  rw [UnpackedFloat.normalize]
  rcases lt_trichotomy z 0 with below | rfl | above
  · have magnitude : ((-z).toNat : ℚ) = -z := by
      exact_mod_cast Int.toNat_of_nonneg (by omega : 0 ≤ -z)
    have rounded := rounds_round spec (show 0 < (-z).toNat by omega) e .negative
    rw [factor, magnitude, neg_one_mul, neg_mul, neg_neg] at rounded
    rw [compare_lt_iff_lt.mpr below]
    exact rounded
  · rw [Int.cast_zero, zero_mul]
    exact rounds_zero spec zeroSign
  · have magnitude : (z.toNat : ℚ) = z := by
      exact_mod_cast Int.toNat_of_nonneg above.le
    have rounded := rounds_round spec (show 0 < z.toNat by omega) e .positive
    rw [factor, magnitude, one_mul] at rounded
    rw [compare_gt_iff_gt.mpr above]
    exact rounded

theorem rounds_ofNat (spec : Format) (n : Nat) : Rounds spec n (UnpackedFloat.ofNat spec n) := by
  have rounded := rounds_normalize spec n 0 .positive
  rwa [zpow_zero, mul_one, Int.cast_natCast] at rounded

theorem rounds_add {u v : UnpackedFloat} (left : Canonical spec u) (right : Canonical spec v)
    (uFinite : u.isFinite) (vFinite : v.isFinite) :
    Rounds spec (value u + value v) (add spec u v) := by
  cases u with
  | notANumber => contradiction
  | infinity => contradiction
  | zero s =>
    cases v with
    | zero s' =>
      change Rounds spec (0 + 0) _
      rw [add_zero, UnpackedFloat.add]
      split <;> exact rounds_zero spec _
    | finite =>
      change Rounds spec (0 + _) _
      rw [zero_add]
      exact rounds_self right vFinite
    | _ => contradiction
  | finite s m e pos =>
    cases v with
    | zero s' =>
      change Rounds spec (_ + 0) _
      rw [add_zero]
      exact rounds_self left uFinite
    | finite s' m' e' pos' =>
      have rounded := rounds_normalize spec
        (s.apply (m <<< (e - min e e').toNat : Nat) + s'.apply (m' <<< (e' - min e e').toNat : Nat))
        (min e e') .positive
      rw [Int.cast_add, add_mul, apply_shiftLeft s m (min_le_left e e'),
        apply_shiftLeft s' m' (min_le_right e e')] at rounded
      exact rounded
    | _ => contradiction

@[simp] theorem apply_neg (s : Sign) (n : Int) : (-s).apply n = -s.apply n := by
  cases s with
  | positive => rfl
  | negative => exact (neg_neg n).symm

/-- A difference is the sum with the opposite number, zeros and infinities included. -/
theorem sub_eq_add_opposite (spec : Format) (u v : UnpackedFloat) :
    sub spec u v = add spec u v.neg := by
  cases u with
  | notANumber => cases v <;> rfl
  | infinity s =>
    cases v with
    | infinity s' => cases s <;> cases s' <;> rfl
    | _ => rfl
  | zero s =>
    cases v with
    | zero s' => cases s <;> cases s' <;> rfl
    | _ => rfl
  | finite s m e pos =>
    cases v with
    | finite s' m' e' pos' =>
      simp only [UnpackedFloat.sub, UnpackedFloat.add, UnpackedFloat.neg, apply_neg, sub_eq_add_neg]
    | _ => rfl

@[simp] theorem value_neg (u : UnpackedFloat) : value u.neg = -value u := by
  cases u with
  | finite s m e pos =>
    change value (.finite (-s) m e pos) = _
    rw [value_finite, value_finite, factor_neg, neg_mul]
  | _ => exact neg_zero.symm

theorem rounds_sub {u v : UnpackedFloat} (left : Canonical spec u) (right : Canonical spec v)
    (uFinite : u.isFinite) (vFinite : v.isFinite) :
    Rounds spec (value u - value v) (sub spec u v) := by
  have opposite : Canonical spec v.neg := by cases v <;> exact right
  have finite : v.neg.isFinite := by cases v <;> exact vFinite
  rw [sub_eq_add_opposite, sub_eq_add_neg, ← value_neg]
  exact rounds_add left opposite uFinite finite

theorem rounds_mul {u v : UnpackedFloat} (left : Canonical spec u) (right : Canonical spec v)
    (uFinite : u.isFinite) (vFinite : v.isFinite) :
    Rounds spec (value u * value v) (mul spec u v) := by
  cases u with
  | notANumber => contradiction
  | infinity => contradiction
  | zero s =>
    obtain ⟨t, zero⟩ : ∃ t, mul spec (.zero s) v = .zero t := zero_mul_of_isFinite s vFinite
    change Rounds spec (0 * _) _
    rw [zero, zero_mul]
    exact rounds_zero spec t
  | finite s m e pos =>
    cases v with
    | zero s' =>
      change Rounds spec (_ * 0) _
      rw [mul_zero]
      exact rounds_zero spec _
    | finite s' m' e' pos' =>
      have product : Located (m * m' : Nat) (m * m') .exact := rfl
      have rounded := rounds_roundWithAccuracy (mul_room left right pos pos') product (s * s')
      have exact : factor (s * s') * ((m * m' : Nat) * 2 ^ (e + e')) =
          value (.finite s m e pos) * value (.finite s' m' e' pos') := by
        rw [value_finite, value_finite, factor_mul, zpow_add₀ two_ne_zero]
        push_cast
        ring
      rw [exact] at rounded
      exact rounded
    | _ => contradiction

/-- The remainder of a division tells where the quotient lies behind its integer part. -/
theorem located_div {n d : Nat} (pos : 0 < d) :
    Located (n / d : ℚ) (n / d) (accuracyOfFraction (n % d) d) := by
  have divisor : (0 : ℚ) < d := Nat.cast_pos.mpr pos
  have split : (n / d : ℚ) = (n / d : Nat) + (n % d : Nat) / d := by
    rw [div_eq_iff divisor.ne', add_mul, div_mul_cancel₀ _ divisor.ne']
    exact_mod_cast (Nat.div_add_mod' n d).symm
  have bound := Nat.mod_lt n pos
  rw [split, accuracyOfFraction]
  generalize n % d = r at *
  generalize n / d = q at *
  split
  · next zero => rw [zero, Nat.cast_zero, zero_div, add_zero]; rfl
  · next nonzero =>
    have some : (0 : ℚ) < r / d := div_pos (Nat.cast_pos.mpr (Nat.pos_of_ne_zero nonzero)) divisor
    have less : (r / d : ℚ) < 1 := (div_lt_one divisor).mpr (Nat.cast_lt.mpr bound)
    rcases lt_trichotomy (2 * r) d with low | middle | high
    · have half : (r / d : ℚ) < 1 / 2 := by
        rw [div_lt_div_iff₀ divisor two_pos]
        exact_mod_cast (by omega : r * 2 < 1 * d)
      rw [compare_lt_iff_lt.mpr low]
      exact ⟨by linarith, by linarith⟩
    · have half : (r / d : ℚ) = 1 / 2 := by
        rw [div_eq_div_iff divisor.ne' two_ne_zero]
        exact_mod_cast (by omega : r * 2 = 1 * d)
      rw [compare_eq_iff_eq.mpr middle, half]
      rfl
    · have half : (1 / 2 : ℚ) < r / d := by
        rw [div_lt_div_iff₀ two_pos divisor]
        exact_mod_cast (by omega : 1 * d < r * 2)
      rw [compare_gt_iff_gt.mpr high]
      exact ⟨by linarith, by linarith⟩

theorem located_divCore (spec : Format) (m₁ : Nat) (e₁ : Int) {m₂ : Nat} (pos : 0 < m₂) (e₂ : Int) :
    ∃ x, Located x (divCore spec m₁ e₁ m₂ e₂).1 (divCore spec m₁ e₁ m₂ e₂).2.2 ∧
      x * 2 ^ (divCore spec m₁ e₁ m₂ e₂).2.1 = m₁ * 2 ^ e₁ / (m₂ * 2 ^ e₂) := by
  simp only [divCore]
  refine ⟨_, located_div pos, ?_⟩
  have lower : min (e₁ - e₂) (spec.targetExponent (totalExponent m₁ e₁ - totalExponent m₂ e₂)) ≤
      e₁ - e₂ := min_le_left _ _
  generalize min (e₁ - e₂) (spec.targetExponent (totalExponent m₁ e₁ - totalExponent m₂ e₂)) = t
    at lower
  have scale : (2 ^ (e₁ - e₂ - t).toNat * 2 ^ t : ℚ) = 2 ^ e₁ / 2 ^ e₂ := by
    rw [← zpow_natCast, ← zpow_add₀ two_ne_zero, ← zpow_sub₀ two_ne_zero]
    congr 1
    omega
  rw [Nat.shiftLeft_eq, Nat.cast_mul, Nat.cast_pow, Nat.cast_ofNat, mul_div_right_comm, mul_assoc,
    scale, div_mul_div_comm]

theorem rounds_div {u v : UnpackedFloat} (uFinite : u.isFinite) (vFinite : v.isFinite)
    (nonzero : ∀ s, v ≠ .zero s) : Rounds spec (value u / value v) (div spec u v) := by
  cases v with
  | notANumber => contradiction
  | infinity => contradiction
  | zero s => exact absurd rfl (nonzero s)
  | finite s' m' e' pos' =>
    cases u with
    | notANumber => contradiction
    | infinity => contradiction
    | zero s =>
      change Rounds spec (0 / _) _
      rw [zero_div]
      exact rounds_zero spec _
    | finite s m e pos =>
      obtain ⟨x, located, exact⟩ := located_divCore spec m e pos' e'
      have rounded := rounds_roundWithAccuracy (div_room spec pos pos' e e') located (s / s')
      rw [exact, factor_div, div_mul_div_comm, ← value_finite s m e pos,
        ← value_finite s' m' e' pos'] at rounded
      exact rounded

end Interpolant.Binary
