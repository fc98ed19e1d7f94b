import Interpolant.Proofs.BinaryValue

/-! # Packing into bits

Whatever bits a number is unpacked from, it is stored in the format. Packing such a number and
unpacking it again gives it back, unless its exponent is too large for the format: then it comes
back as an infinity.
-/

namespace Interpolant.Binary

open Float.Model Float.Model.UnpackedFloat

/-- The exponent of the largest finite numbers of the format. -/
def maxExponent (spec : Format) : Int :=
  2 ^ spec.exponentBits - 2 - spec.exponentBias - spec.mantissaBitsWithoutImplicit

/-- A number as the format can hold it: too large an exponent makes it an infinity. -/
def held (spec : Format) : UnpackedFloat → UnpackedFloat
  | .finite s m e pos => if maxExponent spec < e then .infinity s else .finite s m e pos
  | u => u

variable {spec : Format}

theorem minExponent_eq (spec : Format) :
    spec.minExponent = 1 - spec.exponentBias - spec.mantissaBitsWithoutImplicit := by
  have positive := Nat.two_pow_pos (spec.exponentBits - 1)
  simp only [Format.minExponent, Format.exponentBias, Format.mantissaBits]
  push_cast [positive]
  omega

theorem sign_ofBitVec_toBitVec (s : Sign) : Sign.ofBitVec s.toBitVec = s := by
  cases s <;> rfl

theorem unpackSign_packComponents (s : Sign) (e : BitVec spec.exponentBits)
    (m : BitVec spec.mantissaBitsWithoutImplicit) :
    unpackSign (packComponents spec s e m) = s.toBitVec := by
  ext i bound
  obtain rfl : i = 0 := by omega
  simp [unpackSign, packComponents, BitVec.getLsbD_append, BitVec.getElem_append]

theorem leading_append_toNat (m : BitVec spec.mantissaBitsWithoutImplicit) :
    (1#1 ++ m).toNat = 2 ^ spec.mantissaBitsWithoutImplicit + m.toNat := by
  rw [BitVec.toNat_append, ← Nat.shiftLeft_add_eq_or_of_lt m.isLt]
  simp [Nat.shiftLeft_eq]

theorem canonical_unpack (b : BitVec spec.numBits) :
    Canonical spec (UnpackedFloat.unpack spec b) := by
  simp only [UnpackedFloat.unpack]
  have bound := (unpackMantissa b).isLt
  split
  · split <;> trivial
  · split
    · next zero =>
      split
      · trivial
      · refine ⟨?_, ?_, ?_⟩
        · rw [two_pow_mantissaBits]
          omega
        · rw [minExponent_eq, zero]
          simp
          omega
        · rw [minExponent_eq, zero]
          intro normal
          simp at normal
          omega
    · next nonzero =>
      refine ⟨?_, ?_, fun _ => ?_⟩
      · rw [two_pow_mantissaBits, leading_append_toNat]
        omega
      · have := BitVec.toNat_ne_iff_ne.mpr nonzero
        rw [minExponent_eq]
        simp at this
        omega
      · rw [leading_append_toNat]
        omega

private theorem mantissa_pos {m : BitVec spec.mantissaBitsWithoutImplicit} (nonzero : m ≠ 0#_) :
    0 < m.toNat := by
  have := BitVec.toNat_ne_iff_ne.mpr nonzero
  rw [BitVec.toNat_zero] at this
  exact Nat.pos_of_ne_zero this

private theorem leading_append_pos (m : BitVec spec.mantissaBitsWithoutImplicit) :
    0 < (1#1 ++ m).toNat := by
  rw [leading_append_toNat]
  exact Nat.add_pos_left (Nat.two_pow_pos _) _

private theorem unpack_packComponents (s : Sign) (e : BitVec spec.exponentBits)
    (m : BitVec spec.mantissaBitsWithoutImplicit) :
    UnpackedFloat.unpack spec (packComponents spec s e m) =
      if e = -1#_ then if m = 0#_ then .infinity s else .notANumber
      else if e = 0#_ then
        if nonzero : m = 0#_ then .zero s
        else .finite s m.toNat
          (e.toNat - (spec.exponentBias + spec.mantissaBitsWithoutImplicit) + 1)
          (mantissa_pos nonzero)
      else .finite s (1#1 ++ m).toNat
        (e.toNat - (spec.exponentBias + spec.mantissaBitsWithoutImplicit))
        (leading_append_pos m) := by
  simp only [UnpackedFloat.unpack, unpackMantissa_packComponents, unpackExponent_packComponents,
    unpackSign_packComponents, sign_ofBitVec_toBitVec]

private theorem zero_ne_ones (spec : Format) : (0#_ : BitVec spec.exponentBits) ≠ -1#_ := by
  simp [spec.he.ne']

theorem unpack_packedNaN (spec : Format) :
    UnpackedFloat.unpack spec (packedNaN spec) = .notANumber := by
  have width := spec.hm
  have quiet : (1#_ : BitVec spec.mantissaBitsWithoutImplicit) <<<
      (spec.mantissaBitsWithoutImplicit - 1) ≠ 0#_ := by
    intro zero
    have bit := congrArg (BitVec.getLsbD · (spec.mantissaBitsWithoutImplicit - 1)) zero
    simp at bit
    omega
  rw [packedNaN, unpack_packComponents, if_pos rfl, if_neg quiet]

theorem unpack_packedInfinity (spec : Format) (s : Sign) :
    UnpackedFloat.unpack spec (packedInfinity spec s) = .infinity s := by
  rw [packedInfinity, unpack_packComponents, if_pos rfl]
  exact if_pos rfl

theorem unpack_packedZero (spec : Format) (s : Sign) :
    UnpackedFloat.unpack spec (packedZero spec s) = .zero s := by
  rw [packedZero, unpack_packComponents]
  exact (if_neg (zero_ne_ones spec)).trans ((if_pos rfl).trans (dif_pos rfl))

private theorem unpack_normal {m E : Nat} (least : 0 < E) (most : E + 1 < 2 ^ spec.exponentBits)
    (leading : 2 ^ spec.mantissaBitsWithoutImplicit ≤ m) (bound : m < 2 ^ spec.mantissaBits)
    (s : Sign) (pos : 0 < m) :
    UnpackedFloat.unpack spec (packComponents spec s (BitVec.ofNat _ E) (BitVec.ofNat _ m)) =
      .finite s m (E - (spec.exponentBias + spec.mantissaBitsWithoutImplicit)) pos := by
  have exponent : (BitVec.ofNat spec.exponentBits E).toNat = E := by
    rw [BitVec.toNat_ofNat, Nat.mod_eq_of_lt (by omega)]
  have notOnes : BitVec.ofNat spec.exponentBits E ≠ -1#_ := by
    rw [← BitVec.toNat_ne_iff_ne, exponent, BitVec.neg_one_eq_allOnes, BitVec.toNat_allOnes]
    omega
  have notZero : BitVec.ofNat spec.exponentBits E ≠ 0#_ := by
    rw [← BitVec.toNat_ne_iff_ne, exponent, BitVec.toNat_zero]
    exact least.ne'
  have mantissa : (1#1 ++ BitVec.ofNat spec.mantissaBitsWithoutImplicit m).toNat = m := by
    rw [two_pow_mantissaBits] at bound
    rw [leading_append_toNat, BitVec.toNat_ofNat, Nat.mod_eq_sub_mod leading,
      Nat.mod_eq_of_lt (by omega)]
    omega
  rw [unpack_packComponents, if_neg notOnes, if_neg notZero]
  simp only [exponent, mantissa]

private theorem unpack_subnormal {m : Nat} (bound : m < 2 ^ spec.mantissaBitsWithoutImplicit)
    (s : Sign) (pos : 0 < m) :
    UnpackedFloat.unpack spec (packComponents spec s 0#_ (BitVec.ofNat _ m)) =
      .finite s m spec.minExponent pos := by
  have mantissa : (BitVec.ofNat spec.mantissaBitsWithoutImplicit m).toNat = m := by
    rw [BitVec.toNat_ofNat, Nat.mod_eq_of_lt bound]
  have notZero : BitVec.ofNat spec.mantissaBitsWithoutImplicit m ≠ 0#_ := by
    rw [← BitVec.toNat_ne_iff_ne, mantissa, BitVec.toNat_zero]
    exact pos.ne'
  rw [unpack_packComponents, if_neg (zero_ne_ones spec), if_pos rfl, dif_neg notZero]
  simp only [mantissa, minExponent_eq, BitVec.toNat_zero, UnpackedFloat.finite.injEq, true_and]
  omega

private theorem log2_eq_iff {m : Nat} (bound : m < 2 ^ spec.mantissaBits) (pos : 0 < m) :
    m.log2 + 1 = spec.mantissaBits ↔ 2 ^ spec.mantissaBitsWithoutImplicit ≤ m := by
  rw [Format.mantissaBits, Nat.add_comm 1] at *
  rw [Nat.add_right_cancel_iff, Nat.log2_eq_iff pos.ne']
  exact and_iff_left bound

/-- A number in the range of the format survives packing. -/
theorem unpack_pack {u : UnpackedFloat} (canonical : Canonical spec u) :
    UnpackedFloat.unpack spec (UnpackedFloat.pack spec u) = held spec u := by
  cases u with
  | notANumber => exact unpack_packedNaN spec
  | infinity s => exact unpack_packedInfinity spec s
  | zero s => exact unpack_packedZero spec s
  | finite s m e pos =>
    obtain ⟨bound, least, leading⟩ := canonical
    rw [minExponent_eq] at least leading
    simp only [UnpackedFloat.pack, held]
    split
    · next large =>
      have above : maxExponent spec < e := by
        rw [maxExponent]
        zify at large
        omega
      rw [unpack_packedInfinity, if_pos above]
    · next small =>
      have below : ¬ maxExponent spec < e := by
        rw [maxExponent]
        zify at small
        omega
      rw [if_neg below]
      split
      · next normal =>
        have full : 2 ^ spec.mantissaBitsWithoutImplicit ≤ m := (log2_eq_iff bound pos).mp normal
        rw [unpack_normal (by omega) (by omega) full bound s pos]
        simp only [UnpackedFloat.finite.injEq, true_and]
        omega
      · next subnormal =>
        have short : m < 2 ^ spec.mantissaBitsWithoutImplicit :=
          lt_of_not_ge fun full => subnormal ((log2_eq_iff bound pos).mpr full)
        have lowest : e = spec.minExponent := by
          rw [minExponent_eq]
          exact le_antisymm (not_lt.mp fun above => (leading above).not_gt short) least
        rw [unpack_subnormal short s pos]
        simp only [lowest]

/-- In a format with normal numbers, what bits encode is in its range. -/
theorem held_unpack (normal : 1 < spec.exponentBits) (b : BitVec spec.numBits) :
    held spec (UnpackedFloat.unpack spec b) = UnpackedFloat.unpack spec b := by
  have bound := (unpackExponent b).isLt
  have four : 4 ≤ 2 ^ spec.exponentBits := Nat.pow_le_pow_right two_pos normal
  simp only [UnpackedFloat.unpack]
  split
  · split <;> rfl
  · next notOnes =>
    have ones := BitVec.toNat_ne_iff_ne.mpr notOnes
    rw [BitVec.neg_one_eq_allOnes, BitVec.toNat_allOnes] at ones
    split
    · next zero =>
      split
      · rfl
      · refine if_neg ?_
        rw [maxExponent, zero, BitVec.toNat_zero]
        zify at four
        omega
    · refine if_neg ?_
      rw [maxExponent]
      have range : (unpackExponent b).toNat + 2 ≤ 2 ^ spec.exponentBits := by omega
      zify at range
      omega

theorem held_eq_zero_iff (u : UnpackedFloat) :
    (∃ s, held spec u = .zero s) ↔ ∃ s, u = .zero s := by
  cases u with
  | finite s m e pos =>
    rw [held]
    split <;> simp only [reduceCtorEq]
  | _ => rfl

end Interpolant.Binary
