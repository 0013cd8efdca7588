import MaskLayout.Proofs.Binary64.Size

namespace MaskLayout.Binary64

open Float.Model
open Float.Model.UnpackedFloat

theorem isFinite_of_sub {x y : Float} (finite : (x - y).isFinite) : x.isFinite ∧ y.isFinite := by
  have operands (a b : UnpackedFloat) (result : (UnpackedFloat.sub Format.binary64 a b).isFinite) :
      a.isFinite ∧ b.isFinite := by
    cases a <;> cases b <;> simp_all [UnpackedFloat.sub, UnpackedFloat.isFinite]
    -- What is left is the difference of two infinite numbers, be it infinite or no number at all.
    rename_i sign sign'
    by_cases same : sign = -sign' <;> simp [same] at result
  exact operands _ _ (isFinite_of_packed finite)

theorem isFinite_of_mul {x y : Float} (finite : (x * y).isFinite) : x.isFinite ∧ y.isFinite := by
  have operands (a b : UnpackedFloat) (result : (UnpackedFloat.mul Format.binary64 a b).isFinite) :
      a.isFinite ∧ b.isFinite := by
    cases a <;> cases b <;> simp_all [UnpackedFloat.mul, UnpackedFloat.isFinite]
  exact operands _ _ (isFinite_of_packed finite)

private theorem roundWithAccuracy_ne (sign : Sign) (mantissa : Nat) (exponent : Int)
    (accuracy : Accuracy) :
    roundWithAccuracy Format.binary64 sign mantissa exponent accuracy ≠ .notANumber := by
  unfold roundWithAccuracy
  dsimp only
  split <;> simp

private theorem normalize_ne (mantissa exponent : Int) (sign : Sign) :
    UnpackedFloat.normalize Format.binary64 mantissa exponent sign ≠ .notANumber := by
  unfold UnpackedFloat.normalize UnpackedFloat.round
  split
  · exact roundWithAccuracy_ne _ _ _ _
  · simp
  · exact roundWithAccuracy_ne _ _ _ _

theorem size_add_le {x y : Float} (finite : x.isFinite) (finite' : y.isFinite) :
    size (x + y) ≤ infiniteSize := by
  have operands (a b : UnpackedFloat) (left : a.isFinite) (right : b.isFinite) :
      UnpackedFloat.add Format.binary64 a b ≠ .notANumber := by
    cases a <;> cases b <;> simp_all [UnpackedFloat.add, UnpackedFloat.isFinite, normalize_ne]
    -- Two zeros, whose sum is a zero of either sign.
    split <;> simp
  exact size_packed_le_iff.mpr (operands _ _ finite finite')

theorem size_sub_le {x y : Float} (number : size x ≤ infiniteSize) (finite : y.isFinite) :
    size (x - y) ≤ infiniteSize := by
  have operands (a b : UnpackedFloat) (left : a ≠ .notANumber) (right : b.isFinite) :
      UnpackedFloat.sub Format.binary64 a b ≠ .notANumber := by
    cases a <;> cases b <;> simp_all [UnpackedFloat.sub, UnpackedFloat.isFinite, normalize_ne]
    -- Two zeros again.
    split <;> simp
  rw [← not_lt, ← unpack_eq_notANumber_iff] at number
  exact size_packed_le_iff.mpr (operands _ _ number finite)

theorem size_div_le {x y : Float} (number : size x ≤ infiniteSize) (finite : y.isFinite)
    (some : size y ≠ 0) : size (x / y) ≤ infiniteSize := by
  have operands (a b : UnpackedFloat) (left : a ≠ .notANumber) (right : b.isFinite)
      (nonzero : ∀ sign, b ≠ .zero sign) : UnpackedFloat.div Format.binary64 a b ≠ .notANumber := by
    cases a <;> cases b <;> simp_all [UnpackedFloat.div, UnpackedFloat.isFinite, roundWithAccuracy_ne]
  rw [← not_lt, ← unpack_eq_notANumber_iff] at number
  refine size_packed_le_iff.mpr (operands _ _ number finite fun sign same => some ?_)
  rw [← size_packed_zero sign, ← same, unpack_eq, packed_unpacked]

/-- Shifting divides by a power of two. The round bit says whether a half or more is lost, the sticky
bit whether anything beside that half is. -/
theorem shiftRight_eq (mantissa places : Nat) :
    (⟨mantissa, false, false⟩ : ExtendedMantissa) >>> places =
      ⟨mantissa / 2 ^ places, decide (2 ^ places ≤ 2 * (mantissa % 2 ^ places)),
        decide (mantissa % 2 ^ places ≠ 0 ∧ 2 * (mantissa % 2 ^ places) ≠ 2 ^ places)⟩ := by
  induction places with
  | zero => simp [HShiftRight.hShiftRight, Nat.repeat, Nat.mod_one]
  | succ places ih =>
    have step : (⟨mantissa, false, false⟩ : ExtendedMantissa) >>> (places + 1) =
        ((⟨mantissa, false, false⟩ : ExtendedMantissa) >>> places).shiftRightOne := rfl
    have rest := Nat.mod_lt mantissa (Nat.two_pow_pos places)
    have lost : mantissa % 2 ^ (places + 1) =
        2 ^ places * (mantissa / 2 ^ places % 2) + mantissa % 2 ^ places := by
      rw [Nat.pow_succ, Nat.mod_mul, Nat.add_comm]
    rw [step, ih, ExtendedMantissa.shiftRightOne, lost, Nat.pow_succ, ← Nat.div_div_eq_div_mul]
    generalize mantissa % 2 ^ places = lost at *
    generalize mantissa / 2 ^ places = kept at *
    generalize 2 ^ places = weight at *
    have bit : kept % 2 = 0 ∨ kept % 2 = 1 := Nat.mod_two_eq_zero_or_one kept
    congr 1
    · rcases bit with even | odd
      · simp [even]
        omega
      · simp [odd]
        omega
    · rcases bit with even | odd
      · rw [even, Bool.eq_iff_iff]
        simp
        omega
      · rw [odd, Bool.eq_iff_iff]
        simp
        omega

/-- Shifting and then rounding is rounding the ratio. -/
theorem roundedMantissa_shiftRight (mantissa places : Nat) :
    ((⟨mantissa, false, false⟩ : ExtendedMantissa) >>> places).roundedMantissa =
      nearest mantissa (2 ^ places) := by
  have power := Nat.two_pow_pos places
  rw [shiftRight_eq, nearest]
  generalize mantissa % 2 ^ places = lost at *
  generalize mantissa / 2 ^ places = kept
  generalize 2 ^ places = weight at *
  unfold ExtendedMantissa.roundedMantissa ExtendedMantissa.accuracy
  rcases lt_trichotomy (2 * lost) weight with below | half | above
  · rw [if_pos below, decide_eq_false (by omega)]
    cases decide (lost ≠ 0 ∧ 2 * lost ≠ weight) <;> rfl
  · rw [if_neg (by omega), if_neg (by omega), decide_eq_true half.ge, decide_eq_false (by omega)]
    rfl
  · rw [if_neg (by omega), if_pos above, decide_eq_true above.le, decide_eq_true (by omega)]
    rfl

private theorem shiftToTargetExponent_eq (mantissa : Nat) (exponent : Int) :
    shiftToTargetExponent Format.binary64 mantissa exponent .exact =
      ((⟨mantissa, false, false⟩ : ExtendedMantissa) >>>
          (max (-1074) ((mantissa.log2 : Int) + exponent - 52) - exponent).toNat,
        exponent + (max (-1074) ((mantissa.log2 : Int) + exponent - 52) - exponent).toNat) := by
  have target : Format.binary64.targetExponent (totalExponent mantissa exponent) =
      max (-1074) ((mantissa.log2 : Int) + exponent - 52) := by
    change max ((mantissa.log2 : Int) + 1 + exponent - 53) (-1074) = _
    omega
  rw [shiftToTargetExponent, target]
  rfl

/-- A mantissa that was rounded up to a power of two loses one more place. -/
theorem shiftToTargetExponent_rounded {rounded : Nat} {exponent : Int} (low : -1074 ≤ exponent)
    (short : rounded ≤ 2 * exponentWeight) :
    shiftToTargetExponent Format.binary64 rounded exponent .exact =
      if rounded = 2 * exponentWeight then (⟨exponentWeight, false, false⟩, exponent + 1)
      else (⟨rounded, false, false⟩, exponent) := by
  rw [shiftToTargetExponent_eq]
  split
  · rename_i same
    have log : rounded.log2 = 53 := by
      rw [same]
      decide
    rw [log, same, show (max (-1074) ((53 : Nat) + exponent - 52) - exponent).toNat = 1 by omega]
    rfl
  · rename_i different
    have log : rounded.log2 ≤ 52 := by
      rcases Nat.eq_zero_or_pos rounded with rfl | positive
      · decide
      · refine Nat.le_of_lt_succ ((Nat.log2_lt positive.ne').mpr ?_)
        change rounded < 2 * exponentWeight
        omega
    rw [show (max (-1074) ((rounded.log2 : Int) + exponent - 52) - exponent).toNat = 0 by omega]
    simp
    rfl

/-- What is packed from a rounded mantissa. -/
theorem size_packed_rounded {sign : Sign} {rounded : Nat} {exponent : Int} (positive : 0 < rounded)
    (short : rounded < 2 * exponentWeight) (low : -1074 ≤ exponent)
    (long : exponentWeight ≤ rounded ∨ exponent = -1074) :
    size (packed (.finite sign rounded exponent positive)) =
      min infiniteSize ((exponent + 1074).toNat * exponentWeight + rounded) := by
  by_cases far : 971 < exponent
  · rw [size_packed_overflow far]
    unfold infiniteSize exponentWeight at *
    omega
  · have proper : Proper rounded exponent := ⟨positive, short, low, by omega, long⟩
    rw [size_packed_finite proper, min_eq_right proper.size_lt.le]

/-- A mantissa that is long enough, or has an exponent small enough, is rounded to the nearest word. -/
theorem size_roundWithAccuracy {sign : Sign} {mantissa : Nat} {exponent : Int} (positive : 0 < mantissa)
    (enough : 52 ≤ mantissa.log2 ∨ exponent ≤ -1074) :
    size (packed (roundWithAccuracy Format.binary64 sign mantissa exponent .exact)) =
      magnitude (mantissa * 2 ^ exponent) := by
  have some : (0 : ℚ) < mantissa * 2 ^ exponent := by positivity
  have chosen := roundingExponent_eq positive exponent
  have below := lt_roundingExponent ((mantissa : ℚ) * 2 ^ exponent)
  have above := roundingExponent_le some
  have word := magnitude_eq some mantissa
    (Nat.two_pow_pos (roundingExponent (mantissa * 2 ^ exponent) - exponent).toNat)
  generalize roundingExponent ((mantissa : ℚ) * 2 ^ exponent) = target at *
  obtain ⟨places, same⟩ := Int.eq_ofNat_of_zero_le (show 0 ≤ target - exponent by omega)
  have ratio : (mantissa : ℚ) / (2 ^ places : Nat) = mantissa * 2 ^ exponent * 2 ^ (-target) := by
    rw [mul_assoc, ← zpow_add₀ (by norm_num), show exponent + -target = -(places : Int) by omega,
      zpow_neg, zpow_natCast, div_eq_mul_inv]
    norm_cast
  rw [same, Int.toNat_natCast] at word
  rw [word ratio, roundWithAccuracy, shiftToTargetExponent_eq, ← chosen, same, Int.toNat_natCast]
  rw [← ratio] at below above
  have short := nearest_le_of_le (2 * exponentWeight) (Nat.two_pow_pos places)
    (by exact_mod_cast below.le)
  have long (high : -1074 < target) := le_nearest_of_le (Nat.two_pow_pos places) (above high)
  dsimp only
  rw [roundedMantissa_shiftRight]
  generalize nearest mantissa (2 ^ places) = rounded at *
  obtain rfl : target = exponent + places := by omega
  have low : -1074 ≤ exponent + (places : Int) := by omega
  rw [shiftToTargetExponent_rounded low short]
  by_cases carried : rounded = 2 * exponentWeight
  · simp only [if_pos carried]
    rw [dif_neg (by decide), size_packed_rounded (by decide) (by decide) (by omega) (.inl le_rfl)]
    unfold infiniteSize exponentWeight at *
    omega
  · simp only [if_neg carried]
    split
    · rename_i nothing
      rw [size_packed_zero, nothing]
      unfold exponentWeight at *
      omega
    · rename_i something
      rw [size_packed_rounded (Nat.pos_of_ne_zero something) (by omega) low (by omega)]
      rfl

theorem mul_eq (x y : Float) :
    x * y = packed (UnpackedFloat.mul Format.binary64 (parts x).unpacked (parts y).unpacked) := by
  rw [← unpack_eq, ← unpack_eq]
  rfl

/-- A product of finite numbers is the exact product, rounded once. -/
theorem size_mul {x y : Float} (finite : x.isFinite) (finite' : y.isFinite) :
    size (x * y) = magnitude (modulus x * modulus y) := by
  obtain ⟨m, p, found⟩ := exists_parts finite
  obtain ⟨n, q, found'⟩ := exists_parts finite'
  obtain ⟨_, shape, _⟩ := toBits_of_parts found
  obtain ⟨_, shape', _⟩ := toBits_of_parts found'
  rw [mul_eq, modulus, modulus, found, found']
  dsimp only [Parts.unpacked]
  rcases shape with ⟨rfl, rfl⟩ | proper
  · rw [dif_neg (by decide), Nat.cast_zero, zero_mul, zero_mul, magnitude_zero]
    split <;> exact size_packed_zero _
  · rw [dif_pos proper.positive]
    rcases shape' with ⟨rfl, rfl⟩ | proper'
    · rw [dif_neg (by decide), Nat.cast_zero, zero_mul, mul_zero, magnitude_zero]
      exact size_packed_zero _
    · rw [dif_pos proper'.positive]
      have positive := Nat.mul_pos proper.positive proper'.positive
      refine (size_roundWithAccuracy positive ?_).trans ?_
      · rcases proper.long with long | rfl
        · exact .inl ((Nat.le_log2 positive.ne').mpr (long.trans (Nat.le_mul_of_pos_right _ proper'.positive)))
        · rcases proper'.long with long | rfl
          · exact .inl ((Nat.le_log2 positive.ne').mpr (long.trans (Nat.le_mul_of_pos_left _ proper.positive)))
          · exact .inr (by decide)
      · rw [zpow_add₀ (by norm_num), Nat.cast_mul, mul_mul_mul_comm]

/-- A product is not a number only beside what is not a number, or of nothing and an infinite number. -/
theorem size_mul_infinite {x y : Float} (some : size x ≠ 0) (number : size x ≤ infiniteSize)
    (endless : size y = infiniteSize) : size (x * y) = infiniteSize := by
  rw [mul_eq]
  cases found : parts y with
  | notANumber => exact absurd (parts_eq_notANumber_iff.mp found) endless.not_gt
  | finite negative mantissa exponent =>
    exact absurd endless (size_lt_of_finite (isFinite_of_parts found)).ne
  | infinite negative =>
    cases found' : parts x with
    | notANumber => exact absurd (parts_eq_notANumber_iff.mp found') number.not_gt
    | infinite negative' => exact size_packed_infinity _
    | finite negative' mantissa exponent =>
      obtain ⟨_, shape, _⟩ := toBits_of_parts found'
      rcases shape with ⟨rfl, rfl⟩ | proper
      · exact absurd (size_of_finite found') some
      · rw [Parts.unpacked, Parts.unpacked, dif_pos proper.positive]
        exact size_packed_infinity _

/-- Multiplying by what is at most one away from zero keeps a number finite. -/
theorem isFinite_mul {x y : Float} (finite : x.isFinite) (small : size y ≤ size 1) :
    (x * y).isFinite := by
  have finite' := isFinite_iff_size.mpr (small.trans_lt (size_lt_of_finite isFinite_one))
  have near : modulus y ≤ 1 := by
    rw [← modulus_one]
    exact (modulus_le_iff finite' isFinite_one).mpr small
  rw [isFinite_iff_size, size_mul finite finite']
  calc magnitude (modulus x * modulus y)
      ≤ magnitude (modulus x) := magnitude_mono (mul_nonneg (modulus_nonneg x) (modulus_nonneg y))
        (mul_le_of_le_one_right (modulus_nonneg x) near)
    _ = size x := magnitude_modulus finite
    _ < infiniteSize := size_lt_of_finite finite

end MaskLayout.Binary64
