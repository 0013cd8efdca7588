import Mathlib
import MaskLayout.Binary64.Parts

namespace MaskLayout.Binary64

open Float.Model
open Float.Model.UnpackedFloat

private theorem toBits_inj {x y : Float} (same : x.toBits = y.toBits) : x = y := by
  cases x with | ofModel a =>
  cases y with | ofModel b =>
  cases a
  cases b
  cases same
  rfl

theorem same_iff {x y : Float} : same x y ↔ x = y := by
  rw [same, beq_iff_eq]
  exact ⟨toBits_inj, congrArg Float.toBits⟩

theorem toNat_append {m n : Nat} (high : BitVec m) (low : BitVec n) :
    (high ++ low).toNat = high.toNat * 2 ^ n + low.toNat := by
  rw [BitVec.toNat_append, ← Nat.shiftLeft_add_eq_or_of_lt low.isLt, Nat.shiftLeft_eq]

private theorem toNat_packComponents (sign : Sign) (exponent : BitVec 11) (fraction : BitVec 52) :
    (packComponents Format.binary64 sign exponent fraction).toNat =
      sign.toBitVec.toNat * signWeight + exponent.toNat * exponentWeight + fraction.toNat := by
  rw [packComponents, toNat_append, toNat_append, show signWeight = 2 ^ 11 * exponentWeight from rfl,
    ← Nat.mul_assoc, ← Nat.add_mul]
  rfl

theorem toNat_unpackExponent (word : UInt64) :
    (@unpackExponent Format.binary64 word.toBitVec).toNat =
      word.toNat / exponentWeight % 2048 := by
  simp [unpackExponent, exponentWeight, Nat.shiftRight_eq_div_pow]

theorem toNat_unpackMantissa (word : UInt64) :
    (@unpackMantissa Format.binary64 word.toBitVec).toNat = word.toNat % exponentWeight := by
  simp [unpackMantissa, exponentWeight]

theorem toNat_unpackSign (word : UInt64) :
    (Sign.ofBitVec (@unpackSign Format.binary64 word.toBitVec)).toBitVec.toNat =
      word.toNat / signWeight := by
  have sign (bit : BitVec 1) : (Sign.ofBitVec bit).toBitVec = bit := by
    revert bit
    decide
  have bound := word.toNat_lt
  rw [sign]
  simp only [unpackSign, signWeight, BitVec.toNat_cast, BitVec.extractLsb_toNat,
    UInt64.toNat_toBitVec, Nat.shiftRight_eq_div_pow]
  omega

private theorem toNat_pack_zero (sign : Sign) :
    (UnpackedFloat.pack Format.binary64 (.zero sign)).toNat = sign.toBitVec.toNat * signWeight := by
  have parts := toNat_packComponents sign 0#11 0#52
  rw [BitVec.toNat_zero, BitVec.toNat_zero, Nat.zero_mul, Nat.add_zero] at parts
  exact parts

theorem toNat_pack_subnormal {sign : Sign} {mantissa : Nat} (positive : 0 < mantissa)
    (small : mantissa < exponentWeight) :
    (UnpackedFloat.pack Format.binary64 (.finite sign mantissa (-1074) positive)).toNat =
      sign.toBitVec.toNat * signWeight + mantissa := by
  have short : mantissa.log2 + 1 ≠ Format.binary64.mantissaBits := by
    have below : mantissa.log2 < 52 := (Nat.log2_lt positive.ne').mpr small
    change mantissa.log2 + 1 ≠ 53
    omega
  have kept : (BitVec.ofNat 52 mantissa).toNat = mantissa := by
    rw [BitVec.toNat_ofNat]
    exact Nat.mod_eq_of_lt small
  unfold UnpackedFloat.pack
  rw [if_neg (by decide), if_neg short]
  refine (toNat_packComponents sign 0 (BitVec.ofNat 52 mantissa)).trans ?_
  simp [kept]

theorem toNat_pack_normal {sign : Sign} {fraction field : Nat} (small : fraction < exponentWeight)
    (bound : field < 2047) (positive : 0 < exponentWeight + fraction) :
    (UnpackedFloat.pack Format.binary64
        (.finite sign (exponentWeight + fraction) ((field : Int) - 1075) positive)).toNat =
      sign.toBitVec.toNat * signWeight + field * exponentWeight + fraction := by
  have long : (exponentWeight + fraction).log2 + 1 = Format.binary64.mantissaBits := by
    have exact : (exponentWeight + fraction).log2 = 52 :=
      (Nat.log2_eq_iff positive.ne').mpr (by unfold exponentWeight at *; omega)
    rw [exact]
    rfl
  have biased : ((field : Int) - 1075 + Format.binary64.exponentBias +
      Format.binary64.mantissaBitsWithoutImplicit).toNat = field := by
    change ((field : Int) - 1075 + 1023 + 52).toNat = field
    omega
  unfold UnpackedFloat.pack
  rw [biased, if_neg (by change ¬ 2048 ≤ field + 1; omega), if_pos long]
  refine (toNat_packComponents sign (BitVec.ofNat 11 field)
    (BitVec.ofNat 52 (exponentWeight + fraction))).trans ?_
  rw [BitVec.toNat_ofNat, BitVec.toNat_ofNat]
  unfold exponentWeight at *
  omega

/-- A finite number has no exponent of the last kind. -/
theorem isFinite_iff {x : Float} :
    x.isFinite ↔ x.toBits.toNat / exponentWeight % 2048 ≠ 2047 := by
  have field := toNat_unpackExponent x.toBits
  have last : @unpackExponent Format.binary64 x.toBits.toBitVec = -1#11 ↔
      x.toBits.toNat / exponentWeight % 2048 = 2047 := by
    rw [← BitVec.toNat_inj, field]
    rfl
  rw [ne_eq, ← last]
  change (UnpackedFloat.unpack Format.binary64 x.toBits.toBitVec).isFinite ↔ _
  unfold UnpackedFloat.unpack
  dsimp only
  split
  · rename_i same
    split <;> simp [UnpackedFloat.isFinite, same]
  · rename_i different
    split
    · split <;> simp only [UnpackedFloat.isFinite, different, not_false_iff]
    · simp only [UnpackedFloat.isFinite, different, not_false_iff]

/-- A word is the sum of its weighted fields. -/
theorem fields_sum {word : Nat} :
    word / signWeight * signWeight + word / exponentWeight % 2048 * exponentWeight +
      word % exponentWeight = word := by
  unfold signWeight exponentWeight
  omega

private theorem toNat_pack_unpack {x : Float} (finite : x.isFinite) :
    (UnpackedFloat.pack Format.binary64
      (UnpackedFloat.unpack Format.binary64 x.toBits.toBitVec)).toNat = x.toBits.toNat := by
  have proper := isFinite_iff.mp finite
  have sum : _ = x.toBits.toNat := fields_sum
  have sign := toNat_unpackSign x.toBits
  have field := toNat_unpackExponent x.toBits
  have fraction := toNat_unpackMantissa x.toBits
  have small : x.toBits.toNat % exponentWeight < exponentWeight := Nat.mod_lt _ (by decide)
  have below : x.toBits.toNat / exponentWeight % 2048 < 2048 := Nat.mod_lt _ (by decide)
  unfold UnpackedFloat.unpack
  dsimp only
  split
  · rename_i last
    rw [last] at field
    exact absurd field.symm proper
  · split
    · rename_i first
      have none : x.toBits.toNat / exponentWeight % 2048 = 0 := by
        rw [← field, first]
        rfl
      rw [none, Nat.zero_mul, Nat.add_zero] at sum
      split
      · rename_i nothing
        have empty : x.toBits.toNat % exponentWeight = 0 := by
          rw [← fraction, nothing]
          rfl
        rw [toNat_pack_zero, sign]
        omega
      · rename_i something
        have positive : 0 < x.toBits.toNat % exponentWeight := by
          rw [← fraction]
          exact Nat.pos_of_ne_zero fun zero => something (BitVec.eq_of_toNat_eq zero)
        have weight : ((@unpackExponent Format.binary64 x.toBits.toBitVec).toNat : Int) -
            (Format.binary64.exponentBias + Format.binary64.mantissaBitsWithoutImplicit) + 1 = -1074 := by
          rw [first]
          rfl
        simp only [weight, fraction]
        rw [toNat_pack_subnormal positive small, sign, sum]
    · have leading : (1#1 ++ @unpackMantissa Format.binary64 x.toBits.toBitVec).toNat =
          exponentWeight + x.toBits.toNat % exponentWeight := by
        rw [toNat_append, fraction]
        rfl
      have weight : ((@unpackExponent Format.binary64 x.toBits.toBitVec).toNat : Int) -
          (Format.binary64.exponentBias + Format.binary64.mantissaBitsWithoutImplicit) =
            (x.toBits.toNat / exponentWeight % 2048 : Nat) - 1075 := by
        rw [field]
        rfl
      simp only [weight, leading]
      rw [toNat_pack_normal small (by omega), sign, sum]

/-- The word of a finite number stands for that number. -/
theorem ofBits_toBits {x : Float} (finite : x.isFinite) : Float.ofBits x.toBits = x := by
  refine toBits_inj (UInt64.toNat_inj.mp ?_)
  exact toNat_pack_unpack finite

end MaskLayout.Binary64
