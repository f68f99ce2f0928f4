import VisualProgram.Json.Basic
import Mathlib.Tactic.Ring

/-!
# Whole numbers as floats

A whole number of 64 bits is far within the range of floats, so the float nearest to it is finite
(`Number.isFinite_toFloat`).

A float is finite unless its exponent is too great.  `Within k b` bounds the size of the mantissa and the
exponent of an unpacked float; rounding and multiplication keep such bounds up to a crude term, which is
small here against the greatest exponent, 971.
-/

namespace VisualProgram.Decimal
open Float.Model Float.Model.UnpackedFloat

/-! ## bounds -/

/-- a finite value with a mantissa of at most `k` bits and an exponent of at most `b` -/
inductive Within (k : Nat) (b : Int) : UnpackedFloat → Prop where
  | zero (s : UnpackedFloat.Sign) : Within k b (.zero s)
  | finite (s : UnpackedFloat.Sign) {m : Nat} {e : Int} (hm : 0 < m) (hsize : m < 2 ^ k) (he : e ≤ b) :
    Within k b (.finite s m e hm)

/-- a finite value with an exponent of at most `b` -/
inductive Below (b : Int) : UnpackedFloat → Prop where
  | zero (s : UnpackedFloat.Sign) : Below b (.zero s)
  | finite (s : UnpackedFloat.Sign) {m : Nat} {e : Int} (hm : 0 < m) (he : e ≤ b) : Below b (.finite s m e hm)

theorem Below.mono {b c : Int} {x : UnpackedFloat} (h : Below b x) (hbc : b ≤ c) : Below c x := by
  cases h with
  | zero s => exact .zero s
  | finite s hm he => exact .finite s hm (le_trans he hbc)

theorem Within.mono {k : Nat} {b c : Int} {x : UnpackedFloat} (h : Within k b x) (hbc : b ≤ c) : Within k c x := by
  cases h with
  | zero s => exact .zero s
  | finite s hm hsize he => exact .finite s hm hsize (le_trans he hbc)

/-! ## rounding -/

theorem mantissa_shiftRight (em : ExtendedMantissa) (n : Nat) : (em >>> n).mantissa = em.mantissa / 2 ^ n := by
  induction n with
  | zero => exact (Nat.div_one _).symm
  | succ n ih =>
    have hstep : (em >>> (n + 1)).mantissa = (em >>> n).mantissa / 2 := rfl
    rw [hstep, ih, Nat.div_div_eq_div_mul, Nat.pow_succ]

theorem roundedMantissa_bounds (em : ExtendedMantissa) :
    em.mantissa ≤ em.roundedMantissa ∧ em.roundedMantissa ≤ em.mantissa + 1 := by
  obtain ⟨m, r, s⟩ := em
  cases r <;> cases s <;>
    simp [ExtendedMantissa.roundedMantissa, ExtendedMantissa.accuracy, Accuracy.roundToNearestEven]
  omega

theorem log2_le_of_lt {m k : Nat} (h : m < 2 ^ (k + 1)) : m.log2 ≤ k := by
  by_cases hm : m = 0
  · rw [hm]
    exact Nat.zero_le k
  · exact Nat.lt_succ_iff.mp ((Nat.log2_lt hm).mpr h)

/-- moving a mantissa to the exponent that its size asks for -/
theorem shiftToTargetExponent_eq (m : Nat) (e : Int) (accuracy : Accuracy) :
    let shift := (max ((m.log2 : Int) + 1 + e - 53) (-1074) - e).toNat
    (shiftToTargetExponent .binary64 m e accuracy).1.mantissa = m / 2 ^ shift
      ∧ (shiftToTargetExponent .binary64 m e accuracy).2 = e + shift := by
  refine ⟨(mantissa_shiftRight _ _).trans ?_, rfl⟩
  cases accuracy with
  | exact => rfl
  | inexact o => cases o <;> rfl

theorem shiftToTargetExponent_le {m k : Nat} (h : m < 2 ^ (k + 1)) (e : Int) (accuracy : Accuracy) :
    (shiftToTargetExponent .binary64 m e accuracy).1.mantissa ≤ m
      ∧ (shiftToTargetExponent .binary64 m e accuracy).2 ≤ max (k + e) (-1074) := by
  have hlog := log2_le_of_lt h
  obtain ⟨hmantissa, hexponent⟩ := shiftToTargetExponent_eq m e accuracy
  rw [hmantissa, hexponent]
  refine ⟨Nat.div_le_self _ _, ?_⟩
  omega

theorem below_roundWithAccuracy (sign : UnpackedFloat.Sign) {m k : Nat} (h : m < 2 ^ (k + 1)) (e : Int)
    (accuracy : Accuracy) :
    Below (k + 1 + max (k + e) (-1074)) (roundWithAccuracy .binary64 sign m e accuracy) := by
  obtain ⟨hmantissa, hexponent⟩ := shiftToTargetExponent_le h e accuracy
  unfold roundWithAccuracy
  generalize shiftToTargetExponent .binary64 m e accuracy = first at hmantissa hexponent
  have hrounded : first.1.roundedMantissa < 2 ^ (k + 1 + 1) := by
    have hle := (roundedMantissa_bounds first.1).2
    have hpow : 2 ^ (k + 1 + 1) = 2 * 2 ^ (k + 1) := by ring
    omega
  have hsecond := (shiftToTargetExponent_le hrounded first.2 .exact).2
  dsimp only
  by_cases hzero : (shiftToTargetExponent .binary64 first.1.roundedMantissa first.2 .exact).1.mantissa = 0
  · rw [dif_pos hzero]
    exact .zero sign
  · rw [dif_neg hzero]
    refine .finite sign _ (le_trans hsecond ?_)
    push_cast
    omega

theorem Within.mul {k l : Nat} {b c : Int} {x y : UnpackedFloat} (hx : Within k b x) (hy : Within l c y) :
    Below (k + l + 1 + max (k + l + (b + c)) (-1074)) (UnpackedFloat.mul .binary64 x y) := by
  cases hx with
  | zero s =>
    cases hy with
    | zero s' => exact .zero (s * s')
    | finite s' => exact .zero (s * s')
  | @finite s m e hm hsize he =>
    cases hy with
    | zero s' => exact .zero (s * s')
    | @finite s' m' e' hm' hsize' he' =>
      have hproduct : m * m' < 2 ^ (k + l + 1) := by
        have hmul : m * m' < 2 ^ k * 2 ^ l := Nat.mul_lt_mul'' hsize hsize'
        rw [Nat.pow_succ, Nat.pow_add]
        omega
      refine (below_roundWithAccuracy (s * s') hproduct (e + e') .exact).mono ?_
      push_cast
      omega

theorem Within.neg {k : Nat} {b : Int} {x : UnpackedFloat} (h : Within k b x) : Below b x.neg := by
  cases h with
  | zero s => exact .zero (-s)
  | finite s hm hsize he => exact .finite (-s) hm he

/-! ## packing -/

theorem Within.isFinite {k : Nat} {b : Int} {x : UnpackedFloat} (h : Within k b x) : x.isFinite = true := by
  cases h with
  | zero s => rfl
  | finite s hm hsize he => rfl

/-- what a float is unpacked to; an exponent of ones is the mark of what is not finite -/
theorem unpack_cases (bits : BitVec 64) :
    @unpackExponent .binary64 bits = -1#11 ∧ (UnpackedFloat.unpack .binary64 bits).isFinite = false
    ∨ @unpackExponent .binary64 bits ≠ -1#11
      ∧ Within 53 (max ((@unpackExponent .binary64 bits).toNat - 1075) (-1074))
        (UnpackedFloat.unpack .binary64 bits) := by
  have hmantissa : (@unpackMantissa .binary64 bits).toNat < 2 ^ 52 := (@unpackMantissa .binary64 bits).isLt
  have hbias : (Format.binary64.exponentBias : Int) + (52 : Nat) = 1075 := rfl
  unfold UnpackedFloat.unpack
  dsimp only
  rw [hbias]
  by_cases hones : @unpackExponent .binary64 bits = -1#11
  · rw [if_pos hones]
    refine .inl ⟨hones, ?_⟩
    by_cases hnone : @unpackMantissa .binary64 bits = 0#52
    · rw [if_pos hnone]
      rfl
    · rw [if_neg hnone]
      rfl
  · rw [if_neg hones]
    refine .inr ⟨hones, ?_⟩
    by_cases hzero : @unpackExponent .binary64 bits = 0#11
    · rw [if_pos hzero]
      by_cases hnone : @unpackMantissa .binary64 bits = 0#52
      · rw [dif_pos hnone]
        exact .zero _
      · rw [dif_neg hnone]
        refine .finite _ _ (by omega) ?_
        have hexponent : (@unpackExponent .binary64 bits).toNat = 0 := by
          rw [hzero]
          rfl
        omega
    · rw [if_neg hzero]
      exact .finite _ _ (1#1 ++ @unpackMantissa .binary64 bits).isLt (le_max_left _ _)

theorem isFinite_unpack_iff (bits : BitVec 64) :
    (UnpackedFloat.unpack .binary64 bits).isFinite = true ↔ @unpackExponent .binary64 bits ≠ -1#11 := by
  rcases unpack_cases bits with ⟨hones, hinfinite⟩ | ⟨hones, hwithin⟩
  · rw [hinfinite]
    exact iff_of_false Bool.false_ne_true (not_not_intro hones)
  · exact iff_of_true hwithin.isFinite hones

theorem within_unpack {bits : BitVec 64} (h : @unpackExponent .binary64 bits ≠ -1#11) :
    Within 53 (max ((@unpackExponent .binary64 bits).toNat - 1075) (-1074))
      (UnpackedFloat.unpack .binary64 bits) :=
  (unpack_cases bits).elim (fun hones => absurd hones.1 h) And.right

/-- the packed exponent of a finite value that is within the range -/
theorem exponent_pack {x : UnpackedFloat} {b : Int} (h : Below b x) (hb : b ≤ 971) :
    @unpackExponent .binary64 (UnpackedFloat.pack .binary64 x) ≠ -1#11
      ∧ ((@unpackExponent .binary64 (UnpackedFloat.pack .binary64 x)).toNat : Int) ≤ max (b + 1075) 0 := by
  have hones : (-1#11).toNat = 2047 := rfl
  cases h with
  | zero s =>
    have hpacked : @unpackExponent .binary64 (UnpackedFloat.pack .binary64 (.zero s)) = 0 :=
      unpackExponent_packComponents
    rw [hpacked]
    exact ⟨by decide, le_max_right _ _⟩
  | @finite s m e hm he =>
    have hbias : e + (Format.binary64.exponentBias : Int) + (52 : Nat) = e + 1075 := by
      rw [add_assoc]
      rfl
    have hrange : ¬ 2 ^ 11 ≤ (e + 1075).toNat + 1 := by omega
    unfold UnpackedFloat.pack
    simp only [hbias, hrange, if_false]
    split
    next =>
      rw [unpackExponent_packComponents]
      have hnat : (BitVec.ofNat 11 (e + 1075).toNat).toNat = (e + 1075).toNat := by
        rw [BitVec.toNat_ofNat]
        omega
      constructor
      · intro hall
        rw [hall, hones] at hnat
        omega
      · rw [hnat]
        omega
    next =>
      rw [unpackExponent_packComponents]
      exact ⟨by decide, le_max_right _ _⟩

theorem isFinite_pack {x : UnpackedFloat} (h : Below 971 x) : (Float.Model.pack x).isFinite = true :=
  (isFinite_unpack_iff _).mpr (exponent_pack h (le_refl _)).1

theorem within_unpack_pack {x : UnpackedFloat} {b : Int} (h : Below b x) (hb : b ≤ 971) :
    Within 53 (max b (-1074)) (Float.Model.pack x).unpack := by
  obtain ⟨hfinite, hexponent⟩ := exponent_pack h hb
  exact (within_unpack hfinite).mono (by omega)

/-! ## negation -/

theorem isFinite_neg {x : Float} (h : x.isFinite = true) : x.neg.isFinite = true := by
  have hexponent := (isFinite_unpack_iff _).mp h
  have hwithin := within_unpack hexponent
  have hlt : (@unpackExponent .binary64 x.toModel.toBits.toBitVec).toNat < 2 ^ 11 :=
    (@unpackExponent .binary64 x.toModel.toBits.toBitVec).isLt
  have hne : (@unpackExponent .binary64 x.toModel.toBits.toBitVec).toNat ≠ 2047 := by
    intro hall
    exact hexponent (BitVec.eq_of_toNat_eq hall)
  have hrange : (max ((@unpackExponent .binary64 x.toModel.toBits.toBitVec).toNat - 1075) (-1074) : Int) ≤ 971 := by
    omega
  exact isFinite_pack (hwithin.neg.mono hrange)

/-! ## whole numbers -/

theorem unpack_one :
    (Float.ofBits 0x3ff0000000000000).toModel.unpack = .finite .positive (2 ^ 52) (-52) (Nat.two_pow_pos 52) := rfl

/-- a number of up to 53 bits is a float itself, and one is the first power of ten -/
theorem toModel_ofNat (n : Nat) :
    (Float.ofNat n).toModel
      = if n < 2 ^ 53 then
          Float.Model.pack (UnpackedFloat.mul .binary64
            (Float.Model.pack (UnpackedFloat.ofNat .binary64 n)).unpack
            (.finite .positive (2 ^ 52) (-52) (Nat.two_pow_pos 52)))
        else Float.Model.pack (UnpackedFloat.ofScientific .binary64 n 0) := by
  have hscientific : Float.ofNat n = Float.ofScientific n false 0 := rfl
  rw [hscientific, Float.ofScientific]
  by_cases h : n < 2 ^ 53
  · have hword : n.toUInt64.toNat = n := by
      rw [Nat.toUInt64_eq, UInt64.toNat_ofNat']
      omega
    rw [dif_pos ⟨h, by decide⟩, if_pos h, if_neg (by decide), ← unpack_one]
    show Float.Model.pack (UnpackedFloat.mul .binary64
      (Float.Model.pack (UnpackedFloat.ofNat .binary64 n.toUInt64.toNat)).unpack
      (Float.ofBits 0x3ff0000000000000).toModel.unpack) = _
    rw [hword]
  · rw [dif_neg fun hboth => h hboth.1, if_neg h]
    rfl

/-- other numbers are multiplied by a power of ten that is one -/
theorem ofScientific_eq {n : Nat} (hn : n ≠ 0) : ∃ hm ht, UnpackedFloat.ofScientific .binary64 n 0
    = UnpackedFloat.mul .binary64 (.finite .positive (n <<< 53) (-53) hm) (.finite .positive 1 0 ht) := by
  have hlog : ¬ (0 : Int) < -(2 ^ Format.binary64.exponentBits + (n.log2 : Int)) := by
    have hbits : (2 : Int) ^ Format.binary64.exponentBits = 2048 := rfl
    omega
  rw [UnpackedFloat.ofScientific, dif_neg hn, if_neg (by decide), if_neg hlog, if_pos (by decide)]
  exact ⟨_, _, rfl⟩

theorem below_ofNat {n : Nat} (h : n < 2 ^ 53) : Below 212 (UnpackedFloat.ofNat .binary64 n) := by
  have hlog := log2_le_of_lt h
  unfold UnpackedFloat.ofNat UnpackedFloat.ofInt UnpackedFloat.normalize
  split
  next hneg =>
    have := compare_lt_iff_lt.mp hneg
    omega
  next => exact .zero _
  next =>
    have htarget : Format.binary64.targetExponent (totalExponent n 0)
        = max ((n.log2 : Int) + 1 + 0 - 53) (-1074) := rfl
    rw [UnpackedFloat.round, Int.toNat_natCast, htarget, decreaseExponent]
    generalize hshift : ((0 : Int) - max ((n.log2 : Int) + 1 + 0 - 53) (-1074)).toNat = shift
    have hle : shift ≤ 53 := by omega
    have hsize : n <<< shift < 2 ^ (105 + 1) := by
      have hpow : 2 ^ shift ≤ 2 ^ 53 := Nat.pow_le_pow_right (by decide) hle
      calc n <<< shift = n * 2 ^ shift := Nat.shiftLeft_eq n shift
        _ ≤ n * 2 ^ 53 := Nat.mul_le_mul_left n hpow
        _ < 2 ^ (105 + 1) := by omega
    refine (below_roundWithAccuracy .positive hsize _ .exact).mono ?_
    push_cast
    omega

theorem below_ofScientific {n : Nat} (h : n < 2 ^ 64) : Below 190 (UnpackedFloat.ofScientific .binary64 n 0) := by
  by_cases hn : n = 0
  · rw [UnpackedFloat.ofScientific, dif_pos hn]
    exact .zero _
  · obtain ⟨hm, ht, heq⟩ := ofScientific_eq hn
    have hsize : n <<< 53 < 2 ^ 117 := by
      rw [Nat.shiftLeft_eq]
      omega
    rw [heq]
    refine Below.mono
      (Within.mul (Within.finite _ hm hsize (le_refl _)) (Within.finite (k := 1) _ ht ?_ (le_refl _))) ?_
    · decide
    · decide

/-- a number of up to 64 bits is far below the greatest float -/
theorem isFinite_ofNat {n : Nat} (h : n < 2 ^ 64) : (Float.ofNat n).isFinite = true := by
  unfold Float.isFinite
  rw [toModel_ofNat]
  by_cases hsmall : n < 2 ^ 53
  · have hfirst := within_unpack_pack (below_ofNat hsmall) (by decide)
    have hone : Within 53 (-52) (.finite .positive (2 ^ 52) (-52) (Nat.two_pow_pos 52)) :=
      .finite _ _ (by decide) (le_refl _)
    rw [if_pos hsmall]
    refine isFinite_pack ((hfirst.mul hone).mono ?_)
    decide
  · rw [if_neg hsmall]
    exact isFinite_pack ((below_ofScientific h).mono (by decide))

end VisualProgram.Decimal

namespace VisualProgram.Number

theorem isFinite_toFloat (n : Number) : n.toFloat.isFinite = true := by
  cases n with
  | float x finite => exact finite
  | whole n fits =>
    cases n with
    | ofNat n =>
      have hn : (n : Int) < 0x10000000000000000 := fits.2
      exact Decimal.isFinite_ofNat (by omega)
    | negSucc n =>
      have hn : -0x8000000000000000 ≤ -(n + 1 : Int) := fits.1
      exact Decimal.isFinite_neg (Decimal.isFinite_ofNat (by omega))

end VisualProgram.Number
