import MaskLayout.Binary64.Scalar
import MaskLayout.Proofs.Binary64.Magnitude

namespace MaskLayout.Binary64

open Float.Model
open Float.Model.UnpackedFloat

/-- The word of a number without its sign. -/
def size (x : Float) : Nat := x.toBits.toNat % signWeight

/-- The distance from zero, for a finite number. -/
def modulus (x : Float) : ℚ :=
  match parts x with
  | .finite _ mantissa exponent => mantissa * 2 ^ exponent
  | _ => 0

/-- The size of an infinite number. -/
def infiniteSize : Nat := 2047 * exponentWeight

theorem parts_eq_notANumber_iff {x : Float} : parts x = .notANumber ↔ infiniteSize < size x := by
  have bound := x.toBits.toNat_lt
  unfold parts size infiniteSize
  unfold signWeight exponentWeight
  dsimp only
  split
  · split
    · simp only [reduceCtorEq, false_iff]
      omega
    · simp only [true_iff]
      omega
  · split
    · simp only [reduceCtorEq, false_iff]
      omega
    · simp only [reduceCtorEq, false_iff]
      omega

theorem size_of_infinite {x : Float} {negative : Bool} (endless : parts x = .infinite negative) :
    negative = isNegative x ∧ size x = infiniteSize := by
  have bound := x.toBits.toNat_lt
  unfold parts at endless
  unfold size infiniteSize
  unfold signWeight exponentWeight at *
  dsimp only at endless
  split at endless
  · split at endless
    · cases endless
      exact ⟨rfl, by omega⟩
    · cases endless
  · split at endless <;> cases endless

theorem size_of_finite {x : Float} {negative : Bool} {mantissa : Nat} {exponent : Int}
    (finite : parts x = .finite negative mantissa exponent) :
    size x = (exponent + 1074).toNat * exponentWeight + mantissa := by
  obtain ⟨rfl, shape, word⟩ := toBits_of_parts finite
  rw [size, word]
  rcases shape with ⟨rfl, rfl⟩ | proper
  · split <;> rfl
  · have short := proper.short
    have high := proper.high
    unfold signWeight exponentWeight at *
    split <;> omega

theorem Proper.size_lt {mantissa : Nat} {exponent : Int} (proper : Proper mantissa exponent) :
    (exponent + 1074).toNat * exponentWeight + mantissa < infiniteSize := by
  have short := proper.short
  have high := proper.high
  unfold infiniteSize exponentWeight at *
  omega

theorem size_lt_of_finite {x : Float} (finite : x.isFinite) : size x < infiniteSize := by
  obtain ⟨mantissa, exponent, found⟩ := exists_parts finite
  obtain ⟨_, shape, _⟩ := toBits_of_parts found
  rw [size_of_finite found]
  rcases shape with ⟨rfl, rfl⟩ | proper
  · decide
  · exact proper.size_lt

/-- The size of a finite number is the word nearest to its distance from zero. -/
theorem magnitude_modulus {x : Float} (finite : x.isFinite) : magnitude (modulus x) = size x := by
  obtain ⟨mantissa, exponent, found⟩ := exists_parts finite
  obtain ⟨_, shape, _⟩ := toBits_of_parts found
  rw [size_of_finite found, modulus, found]
  rcases shape with ⟨rfl, rfl⟩ | proper
  · simp
  · exact magnitude_of_proper proper

theorem modulus_nonneg (x : Float) : 0 ≤ modulus x := by
  unfold modulus
  split
  · positivity
  · exact le_rfl

/-- Numbers of one size are equally far from zero. -/
theorem modulus_congr {x y : Float} (same : size x = size y) : modulus x = modulus y := by
  have fields (z : Float) : z.toBits.toNat / exponentWeight % 2048 = size z / exponentWeight ∧
      z.toBits.toNat % exponentWeight = size z % exponentWeight := by
    unfold size signWeight exponentWeight
    omega
  unfold modulus parts
  dsimp only
  rw [(fields x).1, (fields x).2, (fields y).1, (fields y).2, same]
  split_ifs <;> rfl

theorem modulus_le_iff {x y : Float} (finite : x.isFinite) (finite' : y.isFinite) :
    modulus x ≤ modulus y ↔ size x ≤ size y := by
  constructor
  · intro le
    rw [← magnitude_modulus finite, ← magnitude_modulus finite']
    exact magnitude_mono (modulus_nonneg x) le
  · intro le
    by_contra farther
    have ge := magnitude_mono (modulus_nonneg y) (not_le.mp farther).le
    rw [magnitude_modulus finite, magnitude_modulus finite'] at ge
    exact farther (modulus_congr (le_antisymm le ge)).le

def signOf (negative : Bool) : Sign := if negative then .negative else .positive

/-- The number that has these parts. -/
def Parts.unpacked : Parts → UnpackedFloat
  | .notANumber => .notANumber
  | .infinite negative => .infinity (signOf negative)
  | .finite negative mantissa exponent =>
    if positive : 0 < mantissa then .finite (signOf negative) mantissa exponent positive
    else .zero (signOf negative)

private theorem ofBitVec_unpackSign (x : Float) :
    Sign.ofBitVec (@unpackSign Format.binary64 x.toBits.toBitVec) = signOf (isNegative x) := by
  have sign := toNat_unpackSign x.toBits
  have bound := x.toBits.toNat_lt
  unfold isNegative signOf
  unfold signWeight at *
  simp only [decide_eq_true_eq]
  generalize Sign.ofBitVec (@unpackSign Format.binary64 x.toBits.toBitVec) = found at *
  cases found with
  | negative =>
    have : x.toBits.toNat / 9223372036854775808 = 1 := sign.symm
    rw [if_pos (by omega)]
  | positive =>
    have : x.toBits.toNat / 9223372036854775808 = 0 := sign.symm
    rw [if_neg (by omega)]

theorem unpack_eq (x : Float) : x.toModel.unpack = (parts x).unpacked := by
  have field := toNat_unpackExponent x.toBits
  have fraction := toNat_unpackMantissa x.toBits
  have sign := ofBitVec_unpackSign x
  have last : @unpackExponent Format.binary64 x.toBits.toBitVec = -1#11 ↔
      x.toBits.toNat / exponentWeight % 2048 = 2047 := by
    rw [← BitVec.toNat_inj, field]
    rfl
  have first : @unpackExponent Format.binary64 x.toBits.toBitVec = 0#11 ↔
      x.toBits.toNat / exponentWeight % 2048 = 0 := by
    rw [← BitVec.toNat_inj, field]
    rfl
  have nothing : @unpackMantissa Format.binary64 x.toBits.toBitVec = 0#52 ↔
      x.toBits.toNat % exponentWeight = 0 := by
    rw [← BitVec.toNat_inj, fraction]
    rfl
  change UnpackedFloat.unpack Format.binary64 x.toBits.toBitVec = _
  unfold UnpackedFloat.unpack parts
  dsimp only
  rw [sign]
  simp only [last, first, nothing]
  split
  · split
    · rfl
    · rfl
  · split
    · split
      · rename_i zero
        rw [Parts.unpacked, zero]
        rfl
      · rename_i least some
        have positive : 0 < x.toBits.toNat % exponentWeight := Nat.pos_of_ne_zero some
        rw [Parts.unpacked, dif_pos positive]
        simp only [field, least, fraction]
        rfl
    · have positive : 0 < exponentWeight + x.toBits.toNat % exponentWeight :=
        Nat.add_pos_left (by decide) _
      have leading : (1#1 ++ @unpackMantissa Format.binary64 x.toBits.toBitVec).toNat =
          exponentWeight + x.toBits.toNat % exponentWeight := by
        rw [toNat_append, fraction]
        rfl
      rw [Parts.unpacked, dif_pos positive]
      simp only [field, leading]
      rfl

/-- The number that is packed into a word. -/
def packed (unpacked : UnpackedFloat) : Float := .ofModel (.pack unpacked)

theorem unpack_eq_notANumber_iff {x : Float} :
    x.toModel.unpack = .notANumber ↔ infiniteSize < size x := by
  rw [← parts_eq_notANumber_iff, unpack_eq]
  cases parts x with
  | notANumber => simp [Parts.unpacked]
  | infinite negative => simp [Parts.unpacked]
  | finite negative mantissa exponent =>
    by_cases positive : 0 < mantissa <;> simp [Parts.unpacked, positive]

theorem isFinite_iff_size {x : Float} : x.isFinite ↔ size x < infiniteSize := by
  refine ⟨size_lt_of_finite, fun small => ?_⟩
  cases found : parts x with
  | notANumber =>
    have large := parts_eq_notANumber_iff.mp found
    omega
  | infinite negative =>
    have large := (size_of_infinite found).2
    omega
  | finite negative mantissa exponent => exact isFinite_of_parts found

theorem size_packed_infinity (sign : Sign) : size (packed (.infinity sign)) = infiniteSize := by
  cases sign <;> rfl

theorem size_packed_zero (sign : Sign) : size (packed (.zero sign)) = 0 := by
  cases sign <;> rfl

private theorem toNat_pack_finite (sign : Sign) {mantissa : Nat} {exponent : Int}
    (proper : Proper mantissa exponent)
    (positive : 0 < mantissa) :
    (UnpackedFloat.pack Format.binary64 (.finite sign mantissa exponent positive)).toNat =
      sign.toBitVec.toNat * signWeight + ((exponent + 1074).toNat * exponentWeight + mantissa) := by
  have low := proper.low
  have high := proper.high
  have short := proper.short
  by_cases small : mantissa < exponentWeight
  · obtain rfl : exponent = -1074 := proper.long.resolve_left (by omega)
    rw [toNat_pack_subnormal positive small]
    simp
  · obtain ⟨fraction, rfl⟩ := Nat.exists_eq_add_of_le (not_lt.mp small)
    obtain ⟨field, same⟩ := Int.eq_ofNat_of_zero_le (show 0 ≤ exponent + 1075 by omega)
    obtain rfl : exponent = (field : Int) - 1075 := by omega
    rw [toNat_pack_normal (by omega) (by omega)]
    unfold exponentWeight at *
    omega

theorem size_packed_finite {sign : Sign} {mantissa : Nat} {exponent : Int} (proper : Proper mantissa exponent)
    (positive : 0 < mantissa) : size (packed (.finite sign mantissa exponent positive)) =
      (exponent + 1074).toNat * exponentWeight + mantissa := by
  have short := proper.short
  have high := proper.high
  have word : (packed (.finite sign mantissa exponent positive)).toBits.toNat = _ :=
    toNat_pack_finite sign proper positive
  have bit := sign.toBitVec.isLt
  rw [size, word]
  unfold signWeight exponentWeight at *
  omega

theorem size_packed_overflow {sign : Sign} {mantissa : Nat} {exponent : Int} (far : 971 < exponent)
    (positive : 0 < mantissa) : size (packed (.finite sign mantissa exponent positive)) = infiniteSize := by
  have same : UnpackedFloat.pack Format.binary64 (.finite sign mantissa exponent positive) =
      packedInfinity Format.binary64 sign := by
    unfold UnpackedFloat.pack
    apply if_pos
    change 2048 ≤ (exponent + 1023 + 52).toNat + 1
    omega
  rw [← size_packed_infinity sign]
  unfold size packed Float.toBits Float.Model.pack
  simp only [same]
  rfl

/-- Only what is not a number is packed as such. -/
theorem pack_eq_packedNaN_iff {unpacked : UnpackedFloat} :
    UnpackedFloat.pack Format.binary64 unpacked = packedNaN Format.binary64 ↔ unpacked = .notANumber := by
  refine ⟨fun same => ?_, fun same => by rw [same]; rfl⟩
  have field := congrArg (@unpackExponent Format.binary64) same
  have fraction := congrArg (@unpackMantissa Format.binary64) same
  cases unpacked with
  | notANumber => rfl
  | infinity sign => simp [UnpackedFloat.pack, packedInfinity, packedNaN] at fraction
  | zero sign => simp [UnpackedFloat.pack, packedZero, packedNaN] at field
  | finite sign mantissa exponent positive =>
    unfold UnpackedFloat.pack at field fraction
    dsimp only at field fraction
    split at field
    · rename_i far
      rw [if_pos far] at fraction
      simp [packedInfinity, packedNaN] at fraction
    · rename_i near
      split at field
      · have last := congrArg BitVec.toNat field
        simp [packedNaN] at last
        change ¬ 2048 ≤ (exponent + 1023 + 52).toNat + 1 at near
        change (exponent + 1023 + 52).toNat % 2048 = 2047 at last
        omega
      · simp [packedNaN] at field

theorem size_packed_le_iff {unpacked : UnpackedFloat} :
    size (packed unpacked) ≤ infiniteSize ↔ unpacked ≠ .notANumber := by
  rw [← not_lt, ← unpack_eq_notANumber_iff, not_iff_not, ← isNaN_iff]
  change (UnpackedFloat.unpack Format.binary64 (UnpackedFloat.pack Format.binary64 unpacked)).isNaN ↔ _
  rw [isNaN_unpack_iff_of_valid valid_pack, pack_eq_packedNaN_iff]

theorem isFinite_of_packed {unpacked : UnpackedFloat} (finite : (packed unpacked).isFinite) :
    unpacked.isFinite := by
  rw [isFinite_iff_size] at finite
  cases unpacked with
  | notANumber => exact absurd finite (by decide)
  | infinity sign => exact absurd finite (size_packed_infinity sign).not_lt
  | zero sign => rfl
  | finite sign mantissa exponent positive => rfl

private theorem abs_eq (x : Float) : x.abs = packed (parts x).unpacked.abs := by
  rw [← unpack_eq]
  rfl

theorem packed_unpacked (x : Float) : packed (parts x).unpacked = x := by
  rw [← unpack_eq]
  exact Float.ofBits_toBits x

/-- Taking the absolute value keeps the size and clears the sign. -/
theorem size_abs (x : Float) : size x.abs = size x ∧ isNegative x.abs = false := by
  have whole := packed_unpacked x
  rw [abs_eq]
  cases found : parts x with
  | notANumber =>
    rw [found] at whole
    rw [← whole]
    exact ⟨rfl, rfl⟩
  | infinite negative =>
    rw [(size_of_infinite found).2]
    exact ⟨rfl, rfl⟩
  | finite negative mantissa exponent =>
    rw [size_of_finite found]
    obtain ⟨_, shape, _⟩ := toBits_of_parts found
    rcases shape with ⟨rfl, rfl⟩ | proper
    · exact ⟨rfl, rfl⟩
    · rw [Parts.unpacked, dif_pos proper.positive]
      refine ⟨size_packed_finite proper proper.positive, decide_eq_false ?_⟩
      have word := toNat_pack_finite .positive proper proper.positive
      have small := proper.size_lt
      change ¬ signWeight ≤ (UnpackedFloat.pack Format.binary64
        (.finite .positive mantissa exponent proper.positive)).toNat
      rw [word]
      change ¬ signWeight ≤ 0 * signWeight + _
      unfold infiniteSize signWeight exponentWeight at *
      omega

/-- A word without a fraction too many is kept as it is. -/
theorem toBits_ofBits {word : UInt64} (number : word.toNat % signWeight ≤ infiniteSize) :
    (Float.ofBits word).toBits = word := by
  have field := toNat_unpackExponent word
  have fraction := toNat_unpackMantissa word
  have valid : Format.binary64.Valid word.toBitVec := by
    refine ⟨fun last some => ?_⟩
    have full := congrArg BitVec.toNat last
    rw [field] at full
    change word.toNat / exponentWeight % 2048 = 2047 at full
    refine absurd (BitVec.eq_of_toNat_eq ?_) some
    rw [fraction]
    change word.toNat % exponentWeight = 0
    unfold infiniteSize signWeight exponentWeight at *
    omega
  exact UInt64.toBitVec_inj.mp (pack_unpack_of_valid valid)

theorem size_ofRatio (negative : Bool) (numerator : Nat) {denominator : Nat} (bottom : 0 < denominator) :
    size (ofRatio negative numerator denominator) = magnitude ((numerator : ℚ) / denominator) := by
  have bound := magnitude_le ((numerator : ℚ) / denominator)
  rw [ofRatio_eq negative numerator bottom]
  generalize magnitude ((numerator : ℚ) / denominator) = word at *
  have kept : (UInt64.ofNat (word + if negative then signWeight else 0)).toNat =
      word + if negative then signWeight else 0 := by
    rw [UInt64.toNat_ofNat']
    apply Nat.mod_eq_of_lt
    unfold signWeight exponentWeight at *
    split <;> omega
  have rest : (word + if negative then signWeight else 0) % signWeight = word := by
    unfold signWeight exponentWeight at *
    split <;> omega
  rw [size, toBits_ofBits (by rw [kept, rest]; exact bound), kept, rest]

private theorem parts_one : parts 1 = .finite false exponentWeight (-52) := by decide

theorem modulus_one : modulus 1 = 1 := by
  rw [modulus, parts_one]
  norm_num [exponentWeight]

theorem isFinite_one : (1 : Float).isFinite := isFinite_of_parts parts_one

theorem magnitude_one : magnitude 1 = size 1 := by
  rw [← modulus_one]
  exact magnitude_modulus isFinite_one

/-- The whole part of a magnitude is nothing exactly below one. -/
theorem scaled_div_eq_zero_iff (mantissa : Nat) (exponent : Int) :
    (scaled mantissa 1 exponent).1 / (scaled mantissa 1 exponent).2 = 0 ↔
      (mantissa : ℚ) * 2 ^ exponent < 1 := by
  have bottom := scaled_pos mantissa Nat.one_pos exponent
  have value := scaled_value mantissa 1 exponent
  rw [Nat.cast_one, div_one] at value
  rw [Nat.div_eq_zero_iff, or_iff_right bottom.ne', ← value, div_lt_one (by exact_mod_cast bottom),
    Nat.cast_lt]

/-- What is cut off to nothing is less than one away from zero, or not a number. -/
theorem truncate_eq_zero_iff {x : Float} :
    truncate x = 0 ↔ size x < size 1 ∨ infiniteSize < size x := by
  have below := size_lt_of_finite isFinite_one
  unfold truncate
  cases found : parts x with
  | notANumber => simp [parts_eq_notANumber_iff.mp found]
  | infinite negative =>
    have large := (size_of_infinite found).2
    have far : ¬ (size x < size 1 ∨ infiniteSize < size x) := by omega
    cases negative
    · exact iff_of_false (by decide) far
    · exact iff_of_false (by decide) far
  | finite negative mantissa exponent =>
    have finite := isFinite_of_parts found
    have small := size_lt_of_finite finite
    have near : (scaled mantissa 1 exponent).1 / (scaled mantissa 1 exponent).2 = 0 ↔ size x < size 1 := by
      have value : modulus x = mantissa * 2 ^ exponent := by rw [modulus, found]
      rw [scaled_div_eq_zero_iff, ← value, ← not_le, ← not_le, ← modulus_le_iff isFinite_one finite,
        modulus_one]
    have whole : ((scaled mantissa 1 exponent).1 : Int) / (scaled mantissa 1 exponent).2 =
        ((scaled mantissa 1 exponent).1 / (scaled mantissa 1 exponent).2 : Nat) := rfl
    have limits : Int64.minValue.toInt < 0 ∧ 0 < Int64.maxValue.toInt := by decide
    dsimp only
    rw [← near, or_iff_left (by omega), whole]
    generalize (scaled mantissa 1 exponent).1 / (scaled mantissa 1 exponent).2 = magnitude
    split <;> omega

end MaskLayout.Binary64
