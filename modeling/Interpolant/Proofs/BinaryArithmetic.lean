import Interpolant.Proofs.BinaryPacking
import Interpolant.Proofs.BinaryRounding

/-! # Sums, products and quotients

What the operations of a format give back is stored in the format. Rounding leaves a number alone
that the format has already, so that one is neutral for products and a number divided by itself is
one; zeros, infinities and missing numbers are told apart before anything is rounded.
-/

namespace Interpolant.Binary

open Float.Model Float.Model.UnpackedFloat

variable {spec : Format}

/-- The number one, as a format with a large enough range of exponents stores it. -/
def unit (spec : Format) : UnpackedFloat :=
  .finite .positive (2 ^ spec.mantissaBitsWithoutImplicit) (-spec.mantissaBitsWithoutImplicit)
    (Nat.two_pow_pos _)

theorem targetExponent_of_stored {m : Nat} {t : Int} (stored : Stored spec m t) (pos : 0 < m) :
    spec.targetExponent (totalExponent m t) = t := by
  have short : m.log2 < spec.mantissaBits := (Nat.log2_lt pos.ne').mpr stored.mantissa_lt
  rw [targetExponent_eq]
  rw [Format.mantissaBits] at short
  rcases lt_or_eq_of_le stored.minExponent_le with normal | subnormal
  · have full := (Nat.le_log2 pos.ne').mpr (stored.leading normal)
    omega
  · omega

theorem shiftRight_exact (m k : Nat) :
    ExtendedMantissa.ofMantissaAndAccuracy (m * 2 ^ k) .exact >>> k =
      ExtendedMantissa.ofMantissaAndAccuracy m .exact := by
  change k.repeat ExtendedMantissa.shiftRightOne ⟨m * 2 ^ k, false, false⟩ = ⟨m, false, false⟩
  induction k generalizing m with
  | zero => rw [Nat.pow_zero, Nat.mul_one]; rfl
  | succ k ih =>
    rw [Nat.repeat, Nat.pow_succ', ← Nat.mul_assoc, ih]
    simp [ExtendedMantissa.shiftRightOne]

/-- Rounding drops zero bits only from a number that the format has. -/
theorem roundWithAccuracy_of_stored {m : Nat} {t : Int} (stored : Stored spec m t) (pos : 0 < m)
    (s : Sign) (k : Nat) :
    roundWithAccuracy spec s (m * 2 ^ k) (t - k) .exact = .finite s m t pos := by
  have target := targetExponent_of_stored stored pos
  have first : shiftToTargetExponent spec (m * 2 ^ k) (t - k) .exact =
      (ExtendedMantissa.ofMantissaAndAccuracy m .exact, t) := by
    have same := totalExponent_shiftLeft pos t k
    have amount : (t - (t - k)).toNat = k := by omega
    rw [Nat.shiftLeft_eq] at same
    rw [shiftToTargetExponent, same, target, shiftToExponent_eq (by omega), amount,
      shiftRight_exact]
  have second : shiftToTargetExponent spec m t .exact =
      (ExtendedMantissa.ofMantissaAndAccuracy m .exact, t) := by
    rw [shiftToTargetExponent, target, shiftToExponent_of_le (le_refl t)]
  have rounded : (ExtendedMantissa.ofMantissaAndAccuracy m .exact).roundedMantissa = m := rfl
  have bits : (ExtendedMantissa.ofMantissaAndAccuracy m .exact).mantissa = m := rfl
  simp only [roundWithAccuracy, first, rounded, second, bits]
  exact dif_neg pos.ne'

theorem canonical_roundWithAccuracy {m : Nat} {e : Int}
    (room : e ≤ spec.targetExponent (totalExponent m e)) (s : Sign) (accuracy : Accuracy) :
    Canonical spec (roundWithAccuracy spec s m e accuracy) := by
  rcases roundWithAccuracy_cases room s accuracy with ⟨zero, -⟩ | ⟨m', e', pos, nonzero, stored⟩
  · rw [zero]
    trivial
  · rw [nonzero]
    exact stored

theorem isNaN_roundWithAccuracy (spec : Format) (s : Sign) (m : Nat) (e : Int)
    (accuracy : Accuracy) : (roundWithAccuracy spec s m e accuracy).isNaN = false := by
  simp only [roundWithAccuracy]
  split <;> rfl

theorem minExponent_nonpos (spec : Format) : spec.minExponent ≤ 0 := by
  have width := spec.hm
  rw [minExponent_eq]
  omega

/-- A product of stored mantissas has all the bits that the format can take up. -/
theorem mul_room {m₁ m₂ : Nat} {e₁ e₂ : Int} (left : Stored spec m₁ e₁)
    (right : Stored spec m₂ e₂) (pos₁ : 0 < m₁) (pos₂ : 0 < m₂) :
    e₁ + e₂ ≤ spec.targetExponent (totalExponent (m₁ * m₂) (e₁ + e₂)) := by
  rw [targetExponent_eq]
  by_cases subnormal : e₁ ≤ spec.minExponent ∧ e₂ ≤ spec.minExponent
  · have := minExponent_nonpos spec
    omega
  · have full : 2 ^ spec.mantissaBitsWithoutImplicit ≤ m₁ * m₂ := by
      rcases not_and_or.mp subnormal with normal | normal
      · exact (left.leading (not_le.mp normal)).trans (Nat.le_mul_of_pos_right m₁ pos₂)
      · exact (right.leading (not_le.mp normal)).trans (Nat.le_mul_of_pos_left m₂ pos₁)
    have bits := (Nat.le_log2 (Nat.mul_pos pos₁ pos₂).ne').mpr full
    omega

theorem canonical_mul {u v : UnpackedFloat} (left : Canonical spec u) (right : Canonical spec v) :
    Canonical spec (mul spec u v) := by
  cases u with
  | finite s₁ m₁ e₁ pos₁ =>
    cases v with
    | finite s₂ m₂ e₂ pos₂ => exact canonical_roundWithAccuracy (mul_room left right pos₁ pos₂) _ _
    | _ => trivial
  | _ => cases v <;> trivial

/-- A quotient is carried to as many bits as the format can take up. -/
theorem div_room (spec : Format) {m₁ m₂ : Nat} (pos₁ : 0 < m₁) (pos₂ : 0 < m₂)
    (e₁ e₂ : Int) :
    (divCore spec m₁ e₁ m₂ e₂).2.1 ≤ spec.targetExponent
      (totalExponent (divCore spec m₁ e₁ m₂ e₂).1 (divCore spec m₁ e₁ m₂ e₂).2.1) := by
  simp only [divCore]
  generalize chosen : min (e₁ - e₂)
    (spec.targetExponent (totalExponent m₁ e₁ - totalExponent m₂ e₂)) = t
  rw [targetExponent_eq]
  rw [Format.targetExponent, totalExponent, totalExponent, Format.mantissaBits] at chosen
  by_cases low : t ≤ spec.minExponent
  · exact low.trans (le_max_right _ _)
  · have enough : m₂.log2 + 1 + spec.mantissaBitsWithoutImplicit ≤
        m₁.log2 + (e₁ - e₂ - t).toNat := by
      omega
    have full : 2 ^ spec.mantissaBitsWithoutImplicit ≤ m₁ <<< (e₁ - e₂ - t).toNat / m₂ := by
      rw [Nat.le_div_iff_mul_le pos₂, Nat.shiftLeft_eq]
      calc 2 ^ spec.mantissaBitsWithoutImplicit * m₂
        _ ≤ 2 ^ spec.mantissaBitsWithoutImplicit * 2 ^ (m₂.log2 + 1) :=
          Nat.mul_le_mul_left _ Nat.lt_log2_self.le
        _ = 2 ^ (m₂.log2 + 1 + spec.mantissaBitsWithoutImplicit) := by
          rw [← Nat.pow_add, Nat.add_comm]
        _ ≤ 2 ^ (m₁.log2 + (e₁ - e₂ - t).toNat) := Nat.pow_le_pow_right two_pos enough
        _ ≤ m₁ * 2 ^ (e₁ - e₂ - t).toNat := by
          rw [Nat.pow_add]
          exact Nat.mul_le_mul_right _ (Nat.log2_self_le pos₁.ne')
    have nonzero := (lt_of_lt_of_le (Nat.two_pow_pos _) full).ne'
    have bits := (Nat.le_log2 nonzero).mpr full
    omega

theorem canonical_div {u v : UnpackedFloat} (left : Canonical spec u) (right : Canonical spec v) :
    Canonical spec (div spec u v) := by
  cases u with
  | finite s₁ m₁ e₁ pos₁ =>
    cases v with
    | finite s₂ m₂ e₂ pos₂ => exact canonical_roundWithAccuracy (div_room spec pos₁ pos₂ e₁ e₂) _ _
    | _ => trivial
  | _ => cases v <;> trivial

theorem canonical_add {u v : UnpackedFloat} (left : Canonical spec u) (right : Canonical spec v) :
    Canonical spec (add spec u v) := by
  cases u with
  | notANumber => trivial
  | infinity s =>
    cases v with
    | infinity s' => simp only [UnpackedFloat.add]; split <;> trivial
    | _ => trivial
  | zero s =>
    cases v with
    | zero s' => simp only [UnpackedFloat.add]; split <;> trivial
    | finite => exact right
    | _ => trivial
  | finite s₁ m₁ e₁ pos₁ =>
    cases v with
    | zero => exact left
    | finite s₂ m₂ e₂ pos₂ =>
      have least : spec.minExponent ≤ min e₁ e₂ := le_min left.minExponent_le right.minExponent_le
      simp only [UnpackedFloat.add]
      rcases normalize_cases least .positive with ⟨-, zero⟩ | ⟨-, s, m, e, pos, nonzero, stored⟩
      · rw [zero]
        trivial
      · rw [nonzero]
        exact stored
    | _ => trivial

/-- One is neutral for products. -/
theorem unit_mul {u : UnpackedFloat} (canonical : Canonical spec u) (number : u.isNaN = false) :
    mul spec (unit spec) u = u := by
  cases u with
  | notANumber => contradiction
  | infinity s => cases s <;> rfl
  | zero s => cases s <;> rfl
  | finite s m e pos =>
    have exact := roundWithAccuracy_of_stored canonical pos (.positive * s)
      spec.mantissaBitsWithoutImplicit
    rw [Nat.mul_comm m, sub_eq_neg_add] at exact
    refine exact.trans ?_
    cases s <;> rfl

/-- A number divided by itself is one. -/
theorem div_self_of_finite (canonical : Canonical spec (unit spec)) (s : Sign) (m : Nat) (e : Int)
    (pos : 0 < m) : div spec (.finite s m e pos) (.finite s m e pos) = unit spec := by
  have least : spec.minExponent ≤ -spec.mantissaBitsWithoutImplicit := canonical.minExponent_le
  have target : min (e - e) (spec.targetExponent (totalExponent m e - totalExponent m e)) ≤
      -spec.mantissaBitsWithoutImplicit := by
    rw [Format.targetExponent, Format.mantissaBits]
    omega
  simp only [UnpackedFloat.div, divCore]
  generalize min (e - e) (spec.targetExponent (totalExponent m e - totalExponent m e)) = t at target
  obtain ⟨k, same⟩ : ∃ k : Nat, t = -spec.mantissaBitsWithoutImplicit - k :=
    ⟨(-spec.mantissaBitsWithoutImplicit - t).toNat, by omega⟩
  have amount : (e - e - t).toNat = spec.mantissaBitsWithoutImplicit + k := by omega
  have quotient : m * 2 ^ (e - e - t).toNat / m = 2 ^ spec.mantissaBitsWithoutImplicit * 2 ^ k := by
    rw [Nat.mul_div_cancel_left _ pos, amount, Nat.pow_add]
  have remainder : m * 2 ^ (e - e - t).toNat % m = 0 := Nat.mul_mod_right _ _
  rw [Nat.shiftLeft_eq, quotient, remainder, same]
  have exact := roundWithAccuracy_of_stored canonical (Nat.two_pow_pos _) (s / s) k
  refine exact.trans ?_
  cases s <;> rfl

theorem isNaN_held (u : UnpackedFloat) : (held spec u).isNaN = u.isNaN := by
  cases u with
  | finite s m e pos =>
    rw [held]
    split <;> rfl
  | _ => rfl

/-- Multiplying finite numbers may overflow, but gives a number. -/
theorem isNaN_mul {u v : UnpackedFloat} (left : u.isFinite) (right : v.isFinite) :
    (mul spec u v).isNaN = false := by
  cases u with
  | notANumber => contradiction
  | infinity => contradiction
  | zero => cases v <;> first | rfl | contradiction
  | finite =>
    cases v with
    | finite => exact isNaN_roundWithAccuracy _ _ _ _ _
    | zero => rfl
    | _ => contradiction

/-- Dividing by a finite number other than zero gives a number. -/
theorem isNaN_div {u v : UnpackedFloat} (left : u.isNaN = false) (right : v.isFinite)
    (nonzero : ∀ s, v ≠ .zero s) : (div spec u v).isNaN = false := by
  cases v with
  | notANumber => contradiction
  | infinity => contradiction
  | zero s => exact absurd rfl (nonzero s)
  | finite =>
    cases u with
    | notANumber => contradiction
    | finite => exact isNaN_roundWithAccuracy _ _ _ _ _
    | _ => rfl

theorem zero_mul_of_isFinite (s : Sign) {v : UnpackedFloat} (finite : v.isFinite) :
    ∃ s', mul spec (.zero s) v = .zero s' := by
  cases v with
  | zero s' => exact ⟨s * s', rfl⟩
  | finite s' => exact ⟨s * s', rfl⟩
  | _ => contradiction

theorem mul_zero_of_isFinite (s : Sign) {u : UnpackedFloat} (finite : u.isFinite) :
    ∃ s', mul spec u (.zero s) = .zero s' := by
  cases u with
  | zero s' => exact ⟨s' * s, rfl⟩
  | finite s' => exact ⟨s' * s, rfl⟩
  | _ => contradiction

theorem zero_div_of_nonzero (s : Sign) {v : UnpackedFloat} (number : v.isNaN = false)
    (nonzero : ∀ s', v ≠ .zero s') : ∃ s', div spec (.zero s) v = .zero s' := by
  cases v with
  | notANumber => contradiction
  | zero s' => exact absurd rfl (nonzero s')
  | infinity s' => exact ⟨s / s', rfl⟩
  | finite s' => exact ⟨s / s', rfl⟩

/-- Zero times an infinity is lost. -/
theorem isFinite_of_zero_mul {s : Sign} {v : UnpackedFloat}
    (number : (mul spec (.zero s) v).isNaN = false) : v.isFinite := by
  cases v <;> first | rfl | exact nomatch number

theorem isFinite_of_mul_zero {s : Sign} {u : UnpackedFloat}
    (number : (mul spec u (.zero s)).isNaN = false) : u.isFinite := by
  cases u <;> first | rfl | exact nomatch number

/-- A quotient of infinities is lost. -/
theorem isFinite_of_div {u v : UnpackedFloat} (number : (div spec u v).isNaN = false) :
    u.isFinite ∨ v.isFinite := by
  cases u <;> cases v <;> first | exact .inl rfl | exact .inr rfl | exact nomatch number

/-- A zero is neutral for sums, but for the sign of a sum of zeros. -/
theorem zero_add_cases (spec : Format) (s : Sign) {v : UnpackedFloat} (number : v.isNaN = false) :
    add spec (.zero s) v = v ∨ (∃ t, v = .zero t) ∧ ∃ t, add spec (.zero s) v = .zero t := by
  cases v with
  | notANumber => contradiction
  | zero t =>
    refine .inr ⟨⟨t, rfl⟩, ?_⟩
    rw [UnpackedFloat.add]
    split <;> exact ⟨_, rfl⟩
  | _ => exact .inl rfl

theorem add_zero_cases (spec : Format) (s : Sign) {u : UnpackedFloat} (number : u.isNaN = false) :
    add spec u (.zero s) = u ∨ (∃ t, u = .zero t) ∧ ∃ t, add spec u (.zero s) = .zero t := by
  cases u with
  | notANumber => contradiction
  | zero t =>
    refine .inr ⟨⟨t, rfl⟩, ?_⟩
    rw [UnpackedFloat.add]
    split <;> exact ⟨_, rfl⟩
  | _ => exact .inl rfl

theorem isNaN_of_add {u v : UnpackedFloat} (number : (add spec u v).isNaN = false) :
    u.isNaN = false ∧ v.isNaN = false := by
  cases u <;> cases v <;> first | exact ⟨rfl, rfl⟩ | exact nomatch number

theorem isNaN_of_mul {u v : UnpackedFloat} (number : (mul spec u v).isNaN = false) :
    u.isNaN = false ∧ v.isNaN = false := by
  cases u <;> cases v <;> first | exact ⟨rfl, rfl⟩ | exact nomatch number

theorem isNaN_of_div {u v : UnpackedFloat} (number : (div spec u v).isNaN = false) :
    u.isNaN = false ∧ v.isNaN = false := by
  cases u <;> cases v <;> first | exact ⟨rfl, rfl⟩ | exact nomatch number

private theorem sub_zeros (spec : Format) (s s' : Sign) :
    ∃ t, sub spec (.zero s) (.zero s') = .zero t := by
  rw [UnpackedFloat.sub]
  split <;> exact ⟨_, rfl⟩

variable (spec) in
/-- A difference depends on the sign of a zero at most in its own sign of zero. -/
theorem sub_congr {u u' v v' : UnpackedFloat} (left : u.beq u') (right : v.beq v')
    (uFinite : u.isFinite) (vFinite : v.isFinite) :
    sub spec u v = sub spec u' v' ∨
      (∃ s, sub spec u v = .zero s) ∧ ∃ s, sub spec u' v' = .zero s := by
  rcases eq_or_zeros_of_beq left with rfl | ⟨⟨s, rfl⟩, ⟨s', rfl⟩⟩
  · rcases eq_or_zeros_of_beq right with rfl | ⟨⟨t, rfl⟩, ⟨t', rfl⟩⟩
    · exact .inl rfl
    · cases u with
      | zero s => exact .inr ⟨sub_zeros spec s t, sub_zeros spec s t'⟩
      | finite => exact .inl rfl
      | _ => contradiction
  · rcases eq_or_zeros_of_beq right with rfl | ⟨⟨t, rfl⟩, ⟨t', rfl⟩⟩
    · cases v with
      | zero t => exact .inr ⟨sub_zeros spec s t, sub_zeros spec s' t⟩
      | finite => exact .inl rfl
      | _ => contradiction
    · exact .inr ⟨sub_zeros spec s t, sub_zeros spec s' t'⟩

/-- Infinities of one sign have no difference. -/
@[simp] theorem sub_infinity_self (spec : Format) (s : Sign) :
    sub spec (.infinity s) (.infinity s) = .notANumber := by
  cases s <;> rfl

theorem isNaN_sub {u v : UnpackedFloat} (left : Canonical spec u) (right : Canonical spec v)
    (uFinite : u.isFinite) (vFinite : v.isFinite) : (sub spec u v).isNaN = false := by
  rcases sub_of_isFinite left right uFinite vFinite with
    ⟨-, s, zero⟩ | ⟨-, s, m, e, pos, nonzero, -⟩
  · rw [zero]
    rfl
  · rw [nonzero]
    rfl

end Interpolant.Binary
