import Interpolant.Proofs.BinaryValue

/-! # Rounding into a format

Rounding drops bits until the format has room for the rest. What is left is stored in the format,
and it is not zero unless there was nothing to round or everything lay below the smallest exponent.
A difference never does: it is a multiple of the smallest number that its operands are multiples of.
-/

namespace Interpolant.Binary

open Float.Model Float.Model.UnpackedFloat

variable {spec : Format}

theorem shiftRight_mantissa (em : ExtendedMantissa) (n : Nat) :
    (em >>> n).mantissa = em.mantissa / 2 ^ n := by
  change (n.repeat ExtendedMantissa.shiftRightOne em).mantissa = _
  induction n with
  | zero => rw [Nat.pow_zero, Nat.div_one]; rfl
  | succ n ih =>
    rw [Nat.repeat, ExtendedMantissa.shiftRightOne, ih, Nat.div_div_eq_div_mul, Nat.pow_succ]

theorem ofMantissaAndAccuracy_mantissa (m : Nat) (accuracy : Accuracy) :
    (ExtendedMantissa.ofMantissaAndAccuracy m accuracy).mantissa = m := by
  rcases accuracy with _ | (_ | _ | _) <;> rfl

theorem roundedMantissa_bounds (em : ExtendedMantissa) :
    em.mantissa ≤ em.roundedMantissa ∧ em.roundedMantissa ≤ em.mantissa + 1 := by
  obtain ⟨m, _ | _, _ | _⟩ := em <;>
    simp only [ExtendedMantissa.roundedMantissa, ExtendedMantissa.accuracy,
      Accuracy.roundToNearestEven] <;> omega

/-- The exponent at which the format stores a number with the given leading bit. -/
theorem targetExponent_eq (spec : Format) (m : Nat) (e : Int) :
    spec.targetExponent (totalExponent m e) =
      max (m.log2 + e - spec.mantissaBitsWithoutImplicit) spec.minExponent := by
  simp only [Format.targetExponent, totalExponent, Format.mantissaBits]
  congr 1
  omega

theorem shiftToExponent_eq {e t : Int} (room : e ≤ t) (m : Nat) (accuracy : Accuracy) :
    shiftToExponent m e accuracy t =
      (ExtendedMantissa.ofMantissaAndAccuracy m accuracy >>> (t - e).toNat, t) := by
  simp only [shiftToExponent, Prod.mk.injEq, true_and]
  omega

/-- The bits that are left at the target exponent fit into the format. -/
theorem stored_shifted {m : Nat} {e : Int} (room : e ≤ spec.targetExponent (totalExponent m e)) :
    Stored spec (m / 2 ^ (spec.targetExponent (totalExponent m e) - e).toNat)
      (spec.targetExponent (totalExponent m e)) := by
  rw [targetExponent_eq] at room ⊢
  generalize target : max (m.log2 + e - spec.mantissaBitsWithoutImplicit : Int) spec.minExponent = t
    at room
  have above : (m.log2 + e - spec.mantissaBitsWithoutImplicit : Int) ≤ t := target ▸ le_max_left _ _
  refine ⟨?_, target ▸ le_max_right _ _, ?_⟩
  · rw [Nat.div_lt_iff_lt_mul (Nat.two_pow_pos _), ← Nat.pow_add]
    refine lt_of_lt_of_le Nat.lt_log2_self (Nat.pow_le_pow_right two_pos ?_)
    rw [Format.mantissaBits]
    omega
  · intro normal
    have exact : (m.log2 + e - spec.mantissaBitsWithoutImplicit : Int) = t := by omega
    have nonzero : m ≠ 0 := by
      rintro rfl
      have := spec.hm
      simp only [Nat.log2_zero] at exact
      omega
    rw [Nat.le_div_iff_mul_le (Nat.two_pow_pos _), ← Nat.pow_add]
    refine le_trans (Nat.pow_le_pow_right two_pos ?_) (Nat.log2_self_le nonzero)
    omega

theorem shiftToExponent_of_le {e t : Int} (reached : t ≤ e) (m : Nat) (accuracy : Accuracy) :
    shiftToExponent m e accuracy t = (ExtendedMantissa.ofMantissaAndAccuracy m accuracy, e) := by
  have still : (t - e).toNat = 0 := by omega
  simp only [shiftToExponent, still, Int.natCast_zero, Int.add_zero, Prod.mk.injEq, and_true]
  rfl

/-- Rounding one mantissa up may need one bit more than the format has. Storing it anew then changes
nothing in its value. -/
theorem stored_carried {m r : Nat} {t : Int} (stored : Stored spec m t) (least : m ≤ r)
    (most : r ≤ m + 1) :
    ∃ em e, shiftToTargetExponent spec r t .exact = (em, e) ∧ Stored spec em.mantissa e ∧
      (em.mantissa * 2 ^ e : ℚ) = r * 2 ^ t := by
  have bound := stored.mantissa_lt
  rcases Nat.lt_or_ge r (2 ^ spec.mantissaBits) with small | large
  · have reached : spec.targetExponent (totalExponent r t) ≤ t := by
      rw [targetExponent_eq, max_le_iff]
      refine ⟨?_, stored.minExponent_le⟩
      have short : r.log2 < spec.mantissaBits := by
        by_cases zero : r = 0
        · rw [zero, Nat.log2_zero, Format.mantissaBits]
          omega
        · exact (Nat.log2_lt zero).mpr small
      rw [Format.mantissaBits] at short
      omega
    exact ⟨_, t, shiftToExponent_of_le reached r .exact,
      ⟨small, stored.minExponent_le, fun normal => (stored.leading normal).trans least⟩, rfl⟩
  · -- The carry leaves a power of two, and dropping its last bit is exact.
    obtain rfl : r = 2 ^ spec.mantissaBits := by omega
    have next : spec.targetExponent (totalExponent (2 ^ spec.mantissaBits) t) = t + 1 := by
      have := stored.minExponent_le
      rw [targetExponent_eq, Nat.log2_two_pow, Format.mantissaBits]
      omega
    have one : (t + 1 - t).toNat = 1 := by omega
    have half : 2 ^ spec.mantissaBits / 2 ^ 1 = 2 ^ spec.mantissaBitsWithoutImplicit := by
      rw [two_pow_mantissaBits, Nat.pow_one, Nat.mul_div_cancel_left _ two_pos]
    have shifted : shiftToTargetExponent spec (2 ^ spec.mantissaBits) t .exact =
        (ExtendedMantissa.ofMantissaAndAccuracy (2 ^ spec.mantissaBits) .exact >>> 1, t + 1) := by
      rw [shiftToTargetExponent, next, shiftToExponent_eq (by omega), one]
    refine ⟨_, t + 1, shifted, ?_⟩
    rw [shiftRight_mantissa, ofMantissaAndAccuracy_mantissa, half]
    have positive := Nat.two_pow_pos spec.mantissaBitsWithoutImplicit
    refine ⟨⟨?_, ?_, fun _ => le_refl _⟩, ?_⟩
    · rw [two_pow_mantissaBits]
      omega
    · have := stored.minExponent_le
      omega
    · rw [two_pow_mantissaBits, zpow_add_one₀ two_ne_zero]
      push_cast
      ring

/-- A rounded number is zero or stored in the format, and it is zero only if no bit is left. -/
theorem roundWithAccuracy_cases {m : Nat} {e : Int}
    (room : e ≤ spec.targetExponent (totalExponent m e)) (s : Sign) (accuracy : Accuracy) :
    roundWithAccuracy spec s m e accuracy = .zero s ∧
        m / 2 ^ (spec.targetExponent (totalExponent m e) - e).toNat = 0 ∨
      ∃ m' e' pos, roundWithAccuracy spec s m e accuracy = .finite s m' e' pos ∧
        Stored spec m' e' := by
  have shifted := shiftToExponent_eq room m accuracy
  obtain ⟨least, most⟩ := roundedMantissa_bounds
    (ExtendedMantissa.ofMantissaAndAccuracy m accuracy >>>
      (spec.targetExponent (totalExponent m e) - e).toNat)
  rw [shiftRight_mantissa, ofMantissaAndAccuracy_mantissa] at least most
  obtain ⟨em, e', carried, stored, same⟩ := stored_carried (stored_shifted room) least most
  simp only [roundWithAccuracy, shiftToTargetExponent] at carried ⊢
  simp only [shifted, carried]
  split
  · next none =>
    rw [none, Nat.cast_zero, zero_mul, eq_comm, mul_eq_zero_iff_right (zpow_pos two_pos _).ne',
      Nat.cast_eq_zero] at same
    exact .inl ⟨rfl, Nat.le_zero.mp (least.trans_eq same)⟩
  · next some => exact .inr ⟨em.mantissa, e', Nat.pos_of_ne_zero some, rfl, stored⟩

/-- No multiple of the smallest number is rounded to zero. -/
theorem roundWithAccuracy_of_pos {m : Nat} {e : Int} (pos : 0 < m) (least : spec.minExponent ≤ e)
    (room : e ≤ spec.targetExponent (totalExponent m e)) (s : Sign) (accuracy : Accuracy) :
    ∃ m' e' pos, roundWithAccuracy spec s m e accuracy = .finite s m' e' pos ∧
      Stored spec m' e' := by
  refine (roundWithAccuracy_cases room s accuracy).resolve_left ?_
  rintro ⟨-, dropped⟩
  have stored := stored_shifted room
  rw [dropped] at stored
  rcases lt_or_eq_of_le stored.minExponent_le with normal | subnormal
  · exact absurd (stored.leading normal) (Nat.two_pow_pos _).not_ge
  · have none : (spec.targetExponent (totalExponent m e) - e).toNat = 0 := by omega
    rw [none, Nat.pow_zero, Nat.div_one] at dropped
    exact absurd dropped pos.ne'

theorem totalExponent_shiftLeft {m : Nat} (pos : 0 < m) (e : Int) (k : Nat) :
    totalExponent (m <<< k) (e - k) = totalExponent m e := by
  have nonzero : m <<< k ≠ 0 := by
    rw [Nat.shiftLeft_eq]
    exact (Nat.mul_pos pos (Nat.two_pow_pos k)).ne'
  have log : (m <<< k).log2 = m.log2 + k := by
    rw [Nat.log2_eq_iff nonzero, Nat.shiftLeft_eq, Nat.add_right_comm, Nat.pow_add,
      Nat.pow_add _ _ k]
    exact ⟨Nat.mul_le_mul_right _ (Nat.log2_self_le pos.ne'),
      Nat.mul_lt_mul_of_pos_right Nat.lt_log2_self (Nat.two_pow_pos k)⟩
  simp only [totalExponent, log]
  omega

theorem round_of_pos {m : Nat} {e : Int} (pos : 0 < m) (least : spec.minExponent ≤ e) (s : Sign) :
    ∃ m' e' pos, UnpackedFloat.round spec s m e = .finite s m' e' pos ∧ Stored spec m' e' := by
  have least' : spec.minExponent ≤ spec.targetExponent (totalExponent m e) := le_max_right _ _
  have same := totalExponent_shiftLeft pos e (e - spec.targetExponent (totalExponent m e)).toNat
  apply roundWithAccuracy_of_pos
  · rw [Nat.shiftLeft_eq]
    exact Nat.mul_pos pos (Nat.two_pow_pos _)
  · omega
  · rw [same]
    omega

theorem normalize_cases {z : Int} {e : Int} (least : spec.minExponent ≤ e) (zeroSign : Sign) :
    z = 0 ∧ UnpackedFloat.normalize spec z e zeroSign = .zero zeroSign ∨
      z ≠ 0 ∧ ∃ s m' e' pos, UnpackedFloat.normalize spec z e zeroSign = .finite s m' e' pos ∧
        Stored spec m' e' := by
  rw [UnpackedFloat.normalize]
  rcases lt_trichotomy z 0 with below | rfl | above
  · rw [compare_lt_iff_lt.mpr below]
    exact .inr ⟨below.ne, .negative, round_of_pos (by omega) least .negative⟩
  · exact .inl ⟨rfl, rfl⟩
  · rw [compare_gt_iff_gt.mpr above]
    exact .inr ⟨above.ne', .positive, round_of_pos (by omega) least .positive⟩

theorem apply_shiftLeft (s : Sign) (m : Nat) {e least : Int} (below : least ≤ e) :
    ((s.apply (m <<< (e - least).toNat : Nat) : Int) : ℚ) * 2 ^ least = s.apply m * 2 ^ e := by
  have scale : (2 ^ e : ℚ) = 2 ^ (e - least).toNat * 2 ^ least := by
    rw [← zpow_natCast, ← zpow_add₀ two_ne_zero, Int.toNat_of_nonneg (by omega), Int.sub_add_cancel]
  cases s <;> simp only [Sign.apply, Nat.shiftLeft_eq, scale] <;> push_cast <;> ring

private theorem sub_finite {m₁ m₂ : Nat} {e₁ e₂ : Int} (left : Stored spec m₁ e₁)
    (right : Stored spec m₂ e₂) (s₁ s₂ : Sign) (pos₁ : 0 < m₁) (pos₂ : 0 < m₂) :
    value (.finite s₁ m₁ e₁ pos₁) = value (.finite s₂ m₂ e₂ pos₂) ∧
        (∃ s, sub spec (.finite s₁ m₁ e₁ pos₁) (.finite s₂ m₂ e₂ pos₂) = .zero s) ∨
      value (.finite s₁ m₁ e₁ pos₁) ≠ value (.finite s₂ m₂ e₂ pos₂) ∧
        ∃ s m e pos, sub spec (.finite s₁ m₁ e₁ pos₁) (.finite s₂ m₂ e₂ pos₂) =
          .finite s m e pos ∧ Stored spec m e := by
  have least : spec.minExponent ≤ min e₁ e₂ := le_min left.minExponent_le right.minExponent_le
  -- At the smaller exponent both mantissas are integers, so that nothing is rounded before the end.
  have difference : ((s₁.apply (m₁ <<< (e₁ - min e₁ e₂).toNat : Nat) -
      s₂.apply (m₂ <<< (e₂ - min e₁ e₂).toNat : Nat) : Int) : ℚ) * 2 ^ min e₁ e₂ =
      value (.finite s₁ m₁ e₁ pos₁) - value (.finite s₂ m₂ e₂ pos₂) := by
    rw [Int.cast_sub, sub_mul, apply_shiftLeft s₁ m₁ (min_le_left e₁ e₂),
      apply_shiftLeft s₂ m₂ (min_le_right e₁ e₂)]
    rfl
  have scale : (2 ^ min e₁ e₂ : ℚ) ≠ 0 := (zpow_pos two_pos _).ne'
  rcases normalize_cases least .positive with ⟨same, zero⟩ | ⟨apart, rounded⟩
  · refine .inl ⟨?_, .positive, zero⟩
    rw [same, Int.cast_zero, zero_mul] at difference
    exact sub_eq_zero.mp difference.symm
  · refine .inr ⟨?_, rounded⟩
    rw [← sub_ne_zero, ← difference]
    exact mul_ne_zero (Int.cast_ne_zero.mpr apart) scale

/-- The difference of two finite numbers is zero if they have the same value, and only then. -/
theorem sub_of_isFinite {u v : UnpackedFloat} (left : Canonical spec u) (right : Canonical spec v)
    (uFinite : u.isFinite) (vFinite : v.isFinite) :
    value u = value v ∧ (∃ s, sub spec u v = .zero s) ∨
      value u ≠ value v ∧ ∃ s m e pos, sub spec u v = .finite s m e pos ∧ Stored spec m e := by
  cases u with
  | notANumber => contradiction
  | infinity => contradiction
  | zero s =>
    cases v with
    | notANumber => contradiction
    | infinity => contradiction
    | zero s' =>
      refine .inl ⟨rfl, ?_⟩
      rw [UnpackedFloat.sub]
      split <;> exact ⟨_, rfl⟩
    | finite s' m e pos => exact .inr ⟨(value_ne_zero s' m e pos).symm, -s', m, e, pos, rfl, right⟩
  | finite s m e pos =>
    cases v with
    | notANumber => contradiction
    | infinity => contradiction
    | zero s' => exact .inr ⟨value_ne_zero s m e pos, s, m, e, pos, rfl, left⟩
    | finite s' m' e' pos' => exact sub_finite left right s s' pos pos'

private theorem sub_of_infinite (spec : Format) {u v : UnpackedFloat}
    (infinite : ¬ (u.isFinite ∧ v.isFinite)) :
    sub spec u v = .notANumber ∨ ∃ s, sub spec u v = .infinity s := by
  cases u with
  | notANumber => exact .inl rfl
  | infinity s =>
    cases v with
    | notANumber => exact .inl rfl
    | infinity s' =>
      rw [UnpackedFloat.sub]
      split
      · exact .inr ⟨s, rfl⟩
      · exact .inl rfl
    | zero => exact .inr ⟨s, rfl⟩
    | finite => exact .inr ⟨s, rfl⟩
  | zero =>
    cases v with
    | notANumber => exact .inl rfl
    | infinity s' => exact .inr ⟨-s', rfl⟩
    | zero => exact absurd ⟨rfl, rfl⟩ infinite
    | finite => exact absurd ⟨rfl, rfl⟩ infinite
  | finite =>
    cases v with
    | notANumber => exact .inl rfl
    | infinity s' => exact .inr ⟨-s', rfl⟩
    | zero => exact absurd ⟨rfl, rfl⟩ infinite
    | finite => exact absurd ⟨rfl, rfl⟩ infinite

theorem canonical_sub {u v : UnpackedFloat} (left : Canonical spec u) (right : Canonical spec v) :
    Canonical spec (sub spec u v) := by
  by_cases finite : u.isFinite ∧ v.isFinite
  · rcases sub_of_isFinite left right finite.1 finite.2 with
      ⟨-, s, zero⟩ | ⟨-, s, m, e, pos, nonzero, stored⟩
    · rw [zero]
      trivial
    · rw [nonzero]
      exact stored
  · rcases sub_of_infinite spec finite with missing | ⟨s, infinite⟩
    · rw [missing]
      trivial
    · rw [infinite]
      trivial

/-- A difference vanishes exactly if it is taken of two finite numbers with one value. -/
theorem sub_eq_zero_iff {u v : UnpackedFloat} (left : Canonical spec u)
    (right : Canonical spec v) :
    (∃ s, sub spec u v = .zero s) ↔ u.isFinite ∧ v.isFinite ∧ value u = value v := by
  by_cases finite : u.isFinite ∧ v.isFinite
  · obtain ⟨uFinite, vFinite⟩ := finite
    rcases sub_of_isFinite left right uFinite vFinite with
      ⟨same, zero⟩ | ⟨apart, s, m, e, pos, nonzero, -⟩
    · exact ⟨fun _ => ⟨uFinite, vFinite, same⟩, fun _ => zero⟩
    · rw [nonzero]
      exact ⟨fun ⟨_, vanishes⟩ => by contradiction, fun ⟨_, _, same⟩ => absurd same apart⟩
  · refine ⟨?_, fun ⟨uFinite, vFinite, _⟩ => absurd ⟨uFinite, vFinite⟩ finite⟩
    rintro ⟨s, zero⟩
    rcases sub_of_infinite spec finite with missing | ⟨_, infinite⟩
    · rw [missing] at zero
      contradiction
    · rw [infinite] at zero
      contradiction

end Interpolant.Binary
