import VisualProgram.Proofs.Decimal.Finite
import VisualProgram.Decimal.Shortest

/-!
# The sign of a float

Of the finite floats with the sign bit set all but one are below zero; the one is the zero with a sign
(`lt_zero_iff`).  The float nearest to a whole number is on the same side of zero as the number
(`ofInt_lt_zero_iff`): a value that is at least the least positive float is not rounded to zero.
-/

namespace VisualProgram.Decimal
open Float.Model Float.Model.UnpackedFloat

/-! ## values apart from zero -/

/-- a value of sign `s` that is not zero, with a mantissa and an exponent that floats have -/
inductive HasSign (s : UnpackedFloat.Sign) : UnpackedFloat → Prop where
  | infinity : HasSign s (.infinity s)
  | finite {m : Nat} {e : Int} (hm : 0 < m) (hsize : m < 2 ^ 53) (he : -1074 ≤ e) : HasSign s (.finite s m e hm)

theorem HasSign.neg {s : UnpackedFloat.Sign} {x : UnpackedFloat} (h : HasSign s x) : HasSign (-s) x.neg := by
  cases h with
  | infinity => exact .infinity
  | finite hm hsize he => exact .finite hm hsize he

/-! ## rounding -/

/-- a value of at least the least positive float keeps a bit of its mantissa -/
theorem shiftToTargetExponent_bounds {m j : Nat} {e : Int} (hm : 2 ^ j ≤ m) (he : -1074 ≤ j + e)
    (accuracy : Accuracy) :
    0 < (shiftToTargetExponent .binary64 m e accuracy).1.mantissa
      ∧ (shiftToTargetExponent .binary64 m e accuracy).1.mantissa < 2 ^ 53
      ∧ -1074 ≤ (shiftToTargetExponent .binary64 m e accuracy).2 := by
  have hpos : m ≠ 0 := fun hzero => absurd (hzero ▸ hm) (Nat.not_le.mpr (Nat.two_pow_pos j))
  have hlog : j ≤ m.log2 := (Nat.le_log2 hpos).mpr hm
  obtain ⟨hmantissa, hexponent⟩ := shiftToTargetExponent_eq m e accuracy
  rw [hmantissa, hexponent]
  generalize hshift : (max ((m.log2 : Int) + 1 + e - 53) (-1074) - e).toNat = shift
  have hfew : shift ≤ m.log2 := by omega
  have hmany : m.log2 + 1 ≤ 53 + shift := by omega
  refine ⟨Nat.div_pos ?_ (Nat.two_pow_pos shift), ?_, by omega⟩
  · exact le_trans (Nat.pow_le_pow_right (by decide) hfew) (Nat.log2_self_le hpos)
  · rw [Nat.div_lt_iff_lt_mul (Nat.two_pow_pos shift), ← Nat.pow_add]
    exact lt_of_lt_of_le Nat.lt_log2_self (Nat.pow_le_pow_right (by decide) hmany)

theorem hasSign_roundWithAccuracy (s : UnpackedFloat.Sign) {m j : Nat} {e : Int} (hm : 2 ^ j ≤ m)
    (he : -1074 ≤ j + e) (accuracy : Accuracy) : HasSign s (roundWithAccuracy .binary64 s m e accuracy) := by
  obtain ⟨hpos, -, hexponent⟩ := shiftToTargetExponent_bounds hm he accuracy
  unfold roundWithAccuracy
  generalize shiftToTargetExponent .binary64 m e accuracy = first at hpos hexponent
  have hrounded : 2 ^ 0 ≤ first.1.roundedMantissa := le_trans hpos (roundedMantissa_bounds first.1).1
  have hleast : -1074 ≤ ((0 : Nat) : Int) + first.2 := by omega
  obtain ⟨hpos', hsize, hexponent'⟩ := shiftToTargetExponent_bounds hrounded hleast .exact
  dsimp only
  rw [dif_neg (Nat.ne_of_gt hpos')]
  exact .finite _ hsize hexponent'

/-! ## unpacking -/

/-- bits that stand for neither a zero nor an undefined value -/
theorem hasSign_unpack {bits : BitVec 64}
    (hnumber : @unpackExponent .binary64 bits = -1#11 → @unpackMantissa .binary64 bits = 0#52)
    (hzero : @unpackExponent .binary64 bits = 0#11 → @unpackMantissa .binary64 bits ≠ 0#52) :
    HasSign (.ofBitVec (@unpackSign .binary64 bits)) (UnpackedFloat.unpack .binary64 bits) := by
  have hmantissa : (@unpackMantissa .binary64 bits).toNat < 2 ^ 52 := (@unpackMantissa .binary64 bits).isLt
  have hbias : (Format.binary64.exponentBias : Int) + (52 : Nat) = 1075 := rfl
  unfold UnpackedFloat.unpack
  dsimp only
  rw [hbias]
  by_cases hones : @unpackExponent .binary64 bits = -1#11
  · rw [if_pos hones, if_pos (hnumber hones)]
    exact .infinity
  · rw [if_neg hones]
    by_cases hnone : @unpackExponent .binary64 bits = 0#11
    · rw [if_pos hnone, dif_neg (hzero hnone)]
      exact .finite _ (by omega) (by omega)
    · rw [if_neg hnone]
      have hexponent : (@unpackExponent .binary64 bits).toNat ≠ 0 := fun hzero => hnone (BitVec.eq_of_toNat_eq hzero)
      exact .finite _ (1#1 ++ @unpackMantissa .binary64 bits).isLt (by omega)

theorem unpackSign_packComponents (s : UnpackedFloat.Sign) (e : BitVec 11) (m : BitVec 52) :
    Sign.ofBitVec (@unpackSign .binary64 (packComponents .binary64 s e m)) = s := by
  have hsign : @unpackSign .binary64 (packComponents .binary64 s e m) = s.toBitVec := by
    apply BitVec.eq_of_getLsbD_eq
    intro i hi
    obtain rfl : i = 0 := by omega
    have hlast : (packComponents .binary64 s e m).getLsbD 63 = s.toBitVec.getLsbD 0 := by
      unfold packComponents
      rw [BitVec.getLsbD_append, if_neg (by decide), BitVec.getLsbD_append, if_neg (by decide)]
    unfold unpackSign
    simpa using hlast
  rw [hsign]
  cases s <;> rfl

theorem HasSign.unpack_pack {s : UnpackedFloat.Sign} {x : UnpackedFloat} (h : HasSign s x) :
    HasSign s (Float.Model.pack x).unpack := by
  have hparts {e : BitVec 11} {m : BitVec 52} (hnumber : e = -1#11 → m = 0#52) (hzero : e = 0#11 → m ≠ 0#52) :
      HasSign s (UnpackedFloat.unpack .binary64 (packComponents .binary64 s e m)) := by
    have hsigned := @hasSign_unpack (packComponents .binary64 s e m)
    rw [unpackExponent_packComponents, unpackMantissa_packComponents, unpackSign_packComponents] at hsigned
    exact hsigned hnumber hzero
  have hinfinity : HasSign s (UnpackedFloat.unpack .binary64 (packedInfinity .binary64 s)) :=
    hparts (fun _ => rfl) (fun hnone => absurd hnone (by decide))
  cases h with
  | infinity => exact hinfinity
  | @finite m e hm hsize he =>
    have hbias : e + (Format.binary64.exponentBias : Int) + (52 : Nat) = e + 1075 := by
      rw [add_assoc]
      rfl
    show HasSign s (UnpackedFloat.unpack .binary64 (UnpackedFloat.pack .binary64 (.finite s m e hm)))
    unfold UnpackedFloat.pack
    dsimp only
    rw [hbias]
    by_cases hbig : 2 ^ 11 ≤ (e + 1075).toNat + 1
    · rw [if_pos hbig]
      exact hinfinity
    · rw [if_neg hbig]
      by_cases hlog : m.log2 + 1 = Format.binary64.mantissaBits
      · -- the mantissa may be cut to zero here, but the exponent is above the least one
        rw [if_pos hlog]
        have hexponent : (BitVec.ofNat 11 (e + 1075).toNat).toNat = (e + 1075).toNat := by
          rw [BitVec.toNat_ofNat]
          omega
        refine hparts (fun hones => ?_) (fun hnone => ?_)
        · rw [hones] at hexponent
          have hall : (-1#11).toNat = 2047 := rfl
          omega
        · rw [hnone] at hexponent
          have hleast : (0#11).toNat = 0 := rfl
          omega
      · rw [if_neg hlog]
        have hlog' : m.log2 ≠ 52 := fun h => hlog (by rw [h]; rfl)
        have hsmall : m < 2 ^ 52 := by
          have hle := log2_le_of_lt hsize
          exact (Nat.log2_lt (Nat.ne_of_gt hm)).mp (by omega)
        refine hparts (fun hones => absurd hones (by decide)) (fun _ hnone => ?_)
        have hmantissa := congrArg BitVec.toNat hnone
        rw [BitVec.toNat_ofNat, Nat.mod_eq_of_lt hsmall] at hmantissa
        exact Nat.ne_of_gt hm hmantissa

/-! ## comparing with zero -/

theorem HasSign.lt_zero_iff {s : UnpackedFloat.Sign} {x : Float} (h : HasSign s x.toModel.unpack) :
    x < 0 ↔ s = .negative := by
  have hlt : x < 0 ↔ x.toModel.unpack.lt (.zero .positive) = true := decide_eq_true_iff
  rw [hlt]
  generalize x.toModel.unpack = y at h
  cases s with
  | negative =>
    refine iff_of_true ?_ rfl
    cases h <;> rfl
  | positive =>
    refine iff_of_false (ne_true_of_eq_false ?_) (by rintro ⟨⟩)
    cases h <;> rfl

/-! ## the sign bit -/

theorem toNat_unpackSign (bits : BitVec 64) : (@unpackSign .binary64 bits).toNat = bits.toNat / 2 ^ 63 := by
  have hbits : bits.toNat < 2 ^ 64 := bits.isLt
  unfold unpackSign
  simp only [BitVec.toNat_cast, BitVec.extractLsb_toNat, Nat.shiftRight_eq_div_pow]
  omega

theorem toNat_unpackExponent (bits : BitVec 64) :
    (@unpackExponent .binary64 bits).toNat = bits.toNat / 2 ^ 52 % 2 ^ 11 := by
  unfold unpackExponent
  simp only [BitVec.toNat_cast, BitVec.extractLsb_toNat, Nat.shiftRight_eq_div_pow]

theorem toNat_unpackMantissa (bits : BitVec 64) : (@unpackMantissa .binary64 bits).toNat = bits.toNat % 2 ^ 52 := by
  unfold unpackMantissa
  simp only [BitVec.toNat_cast, BitVec.extractLsb_toNat, Nat.shiftRight_zero]

theorem ofBitVec_unpackSign_iff (bits : BitVec 64) :
    Sign.ofBitVec (@unpackSign .binary64 bits) = .negative ↔ 0x8000000000000000 ≤ bits.toNat := by
  have hsign := toNat_unpackSign bits
  unfold Sign.ofBitVec
  by_cases hzero : @unpackSign .binary64 bits = 0#1
  · rw [if_pos hzero]
    rw [hzero] at hsign
    refine iff_of_false (by rintro ⟨⟩) ?_
    have hnone : (0#1).toNat = 0 := rfl
    omega
  · rw [if_neg hzero]
    refine iff_of_true rfl ?_
    have hone : (@unpackSign .binary64 bits).toNat ≠ 0 := fun hnone => hzero (BitVec.eq_of_toNat_eq hnone)
    omega

theorem unpack_of_zero {bits : BitVec 64} (hexponent : @unpackExponent .binary64 bits = 0#11)
    (hmantissa : @unpackMantissa .binary64 bits = 0#52) :
    UnpackedFloat.unpack .binary64 bits = .zero (.ofBitVec (@unpackSign .binary64 bits)) := by
  have hones : @unpackExponent .binary64 bits ≠ -1#11 := by
    rw [hexponent]
    decide
  unfold UnpackedFloat.unpack
  dsimp only
  rw [if_neg hones, if_pos hexponent, dif_pos hmantissa]

/-- of the finite floats with the sign bit only the zero is not below zero -/
theorem lt_zero_iff {x : Float} (h : x.isFinite = true) :
    x < 0 ↔ signBit x.toBits = true ∧ x.toBits ≠ 0x8000000000000000 := by
  have hfinite : @unpackExponent .binary64 x.toBits.toBitVec ≠ -1#11 := (isFinite_unpack_iff _).mp h
  have hexponent := toNat_unpackExponent x.toBits.toBitVec
  have hmantissa := toNat_unpackMantissa x.toBits.toBitVec
  have hbound : x.toBits.toBitVec.toNat < 2 ^ 64 := x.toBits.toBitVec.isLt
  have hbit : signBit x.toBits = true ↔ 0x8000000000000000 ≤ x.toBits.toBitVec.toNat := decide_eq_true_iff
  have hbits : x.toBits = 0x8000000000000000 ↔ x.toBits.toBitVec.toNat = 0x8000000000000000 := UInt64.toNat_inj.symm
  rw [hbit, ne_eq, hbits]
  by_cases hzero : @unpackExponent .binary64 x.toBits.toBitVec = 0#11
      ∧ @unpackMantissa .binary64 x.toBits.toBitVec = 0#52
  · have hunpack : x.toModel.unpack = .zero _ := unpack_of_zero hzero.1 hzero.2
    have hlt : x < 0 ↔ x.toModel.unpack.lt (.zero .positive) = true := decide_eq_true_iff
    have hnot : ¬ x < 0 := by
      rw [hlt, hunpack]
      exact Bool.false_ne_true
    have hexponentZero : (@unpackExponent .binary64 x.toBits.toBitVec).toNat = 0 := congrArg BitVec.toNat hzero.1
    have hmantissaZero : (@unpackMantissa .binary64 x.toBits.toBitVec).toNat = 0 := congrArg BitVec.toNat hzero.2
    refine iff_of_false hnot ?_
    omega
  · have hsigned : HasSign _ x.toModel.unpack :=
      hasSign_unpack (fun hones => absurd hones hfinite) fun hnone hnone' => hzero ⟨hnone, hnone'⟩
    have hapart : x.toBits.toBitVec.toNat ≠ 0x8000000000000000 := by
      intro hbits
      refine hzero ⟨BitVec.eq_of_toNat_eq ?_, BitVec.eq_of_toNat_eq ?_⟩
      · rw [hexponent, hbits]
        rfl
      · rw [hmantissa, hbits]
        rfl
    rw [hsigned.lt_zero_iff, ofBitVec_unpackSign_iff]
    exact (and_iff_left hapart).symm

/-! ## whole numbers -/

theorem two_pow_le_shiftLeft {n : Nat} (h : n ≠ 0) (k : Nat) : 2 ^ (n.log2 + k) ≤ n <<< k := by
  rw [Nat.shiftLeft_eq, Nat.pow_add]
  exact Nat.mul_le_mul_right _ (Nat.log2_self_le h)

theorem hasSign_ofNat {n : Nat} (h : n ≠ 0) : HasSign .positive (UnpackedFloat.ofNat .binary64 n) := by
  unfold UnpackedFloat.ofNat UnpackedFloat.ofInt UnpackedFloat.normalize
  split
  next hneg =>
    have := compare_lt_iff_lt.mp hneg
    omega
  next hzero =>
    have := compare_eq_iff_eq.mp hzero
    omega
  next =>
    rw [UnpackedFloat.round, Int.toNat_natCast, decreaseExponent]
    exact hasSign_roundWithAccuracy .positive (two_pow_le_shiftLeft h _) (by omega) .exact

theorem hasSign_mul {m m' j : Nat} {e e' : Int} {hm : 0 < m} {hm' : 0 < m'} (h : 2 ^ j ≤ m * m')
    (he : -1074 ≤ j + (e + e')) :
    HasSign .positive (UnpackedFloat.mul .binary64 (.finite .positive m e hm) (.finite .positive m' e' hm')) :=
  hasSign_roundWithAccuracy .positive h he .exact

theorem hasSign_ofScientific {n : Nat} (h : n ≠ 0) :
    HasSign .positive (UnpackedFloat.ofScientific .binary64 n 0) := by
  obtain ⟨hm, ht, heq⟩ := ofScientific_eq h
  have hsize : 2 ^ (n.log2 + 53) ≤ n <<< 53 * 1 := le_of_le_of_eq (two_pow_le_shiftLeft h 53) (Nat.mul_one _).symm
  rw [heq]
  exact hasSign_mul hsize (by omega)

/-- one as a factor loses nothing: its mantissa makes up for its exponent -/
theorem HasSign.mul_one {x : UnpackedFloat} (h : HasSign .positive x) :
    HasSign .positive (UnpackedFloat.mul .binary64 x (.finite .positive (2 ^ 52) (-52) (Nat.two_pow_pos 52))) := by
  cases h with
  | infinity => exact .infinity
  | @finite m e hm hsize he =>
    have hproduct : 2 ^ 52 ≤ m * 2 ^ 52 := Nat.le_mul_of_pos_left _ hm
    exact hasSign_mul hproduct (by omega)

theorem hasSign_floatOfNat {n : Nat} (h : n ≠ 0) : HasSign .positive (Float.ofNat n).toModel.unpack := by
  rw [toModel_ofNat]
  by_cases hsmall : n < 2 ^ 53
  · rw [if_pos hsmall]
    exact (hasSign_ofNat h).unpack_pack.mul_one.unpack_pack
  · rw [if_neg hsmall]
    exact (hasSign_ofScientific h).unpack_pack

/-- rounding keeps the side of zero -/
theorem ofInt_lt_zero_iff (n : Int) : Float.ofInt n < 0 ↔ n < 0 := by
  cases n with
  | ofNat n =>
    refine iff_of_false ?_ (Int.not_lt.mpr (Int.natCast_nonneg n))
    by_cases hzero : n = 0
    · rw [hzero]
      decide +kernel
    · intro hlt
      cases (hasSign_floatOfNat hzero).lt_zero_iff.mp hlt
  | negSucc n =>
    have hsign : HasSign .negative (Float.ofNat n.succ).neg.toModel.unpack :=
      (hasSign_floatOfNat n.succ_ne_zero).neg.unpack_pack
    exact iff_of_true (hsign.lt_zero_iff.mpr rfl) (Int.negSucc_lt_zero n)

end VisualProgram.Decimal
