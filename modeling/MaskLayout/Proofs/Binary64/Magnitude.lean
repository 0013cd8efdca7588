import MaskLayout.Proofs.Binary64.Rounding

namespace MaskLayout.Binary64

/-- The nearest whole number is at most a half away, and where it is just that it is even. -/
theorem abs_nearest_sub (numerator : Nat) {denominator : Nat} (bottom : 0 < denominator) :
    |(nearest numerator denominator : ℚ) - numerator / denominator| ≤ 1 / 2 ∧
      (|(nearest numerator denominator : ℚ) - numerator / denominator| = 1 / 2 →
        nearest numerator denominator % 2 = 0) := by
  have positive : (0 : ℚ) < denominator := by exact_mod_cast bottom
  have whole : (numerator : ℚ) / denominator =
      (numerator / denominator : Nat) + (numerator % denominator : Nat) / denominator := by
    rw [div_eq_iff positive.ne', add_mul, div_mul_cancel₀ _ positive.ne', mul_comm]
    exact_mod_cast (Nat.div_add_mod numerator denominator).symm
  have short : ((numerator % denominator : Nat) : ℚ) / denominator < 1 := by
    rw [div_lt_one positive]
    exact_mod_cast Nat.mod_lt _ bottom
  rw [whole]
  unfold nearest
  generalize numerator / denominator = below
  generalize numerator % denominator = rest at *
  dsimp only
  have twice : (2 * rest : ℚ) / denominator = 2 * (rest / denominator) := mul_div_assoc ..
  have least : (0 : ℚ) ≤ rest / denominator := by positivity
  split
  · rename_i low
    have small : (2 * rest : ℚ) / denominator < 1 := by
      rw [div_lt_one positive]
      exact_mod_cast low
    rw [sub_add_cancel_left, abs_neg, abs_of_nonneg least]
    exact ⟨by linarith, fun same => absurd same (by linarith)⟩
  · split
    · rename_i high
      have large : (1 : ℚ) < (2 * rest) / denominator := by
        rw [one_lt_div positive]
        exact_mod_cast high
      rw [Nat.cast_add, Nat.cast_one, add_sub_add_left_eq_sub, abs_of_nonneg (by linarith)]
      exact ⟨by linarith, fun same => absurd same (by linarith)⟩
    · rename_i notLow notHigh
      have half : (2 * rest : ℚ) / denominator = 1 := by
        rw [div_eq_one_iff_eq positive.ne']
        exact_mod_cast (by omega : 2 * rest = denominator)
      have middle : (rest : ℚ) / denominator = 1 / 2 := by linarith
      rw [middle, Nat.cast_add, add_sub_add_left_eq_sub]
      rcases Nat.mod_two_eq_zero_or_one below with even | odd
      · rw [even]
        norm_num
        exact even
      · rw [odd]
        norm_num
        omega

private theorem nearest_mono {numerator denominator numerator' denominator' : Nat}
    (bottom : 0 < denominator)
    (bottom' : 0 < denominator')
    (le : (numerator : ℚ) / denominator ≤ numerator' / denominator') :
    nearest numerator denominator ≤ nearest numerator' denominator' := by
  obtain ⟨close, tie⟩ := abs_nearest_sub numerator bottom
  obtain ⟨close', tie'⟩ := abs_nearest_sub numerator' bottom'
  by_contra further
  have next : (nearest numerator' denominator' : ℚ) + 1 ≤ nearest numerator denominator := by
    exact_mod_cast not_le.mp further
  have upper := (abs_le.mp close).2
  have lower := (abs_le.mp close').1
  -- There is no room between the two: both lie at just a half, so both are even, but they are neighbours.
  have even := tie (by rw [abs_of_nonneg] <;> linarith)
  have even' := tie' (by rw [abs_of_nonpos] <;> linarith)
  have neighbours : nearest numerator denominator = nearest numerator' denominator' + 1 := by
    exact_mod_cast (by linarith : (nearest numerator denominator : ℚ) =
      nearest numerator' denominator' + 1)
  omega

/-- Rounding does not pass a whole number. -/
theorem nearest_le_of_le {numerator denominator : Nat} (bound : Nat) (bottom : 0 < denominator)
    (le : (numerator : ℚ) / denominator ≤ bound) : nearest numerator denominator ≤ bound := by
  have upper := (abs_le.mp (abs_nearest_sub numerator bottom).1).2
  exact Nat.lt_succ_iff.mp (by exact_mod_cast (by linarith :
    (nearest numerator denominator : ℚ) < bound + 1))

theorem le_nearest_of_le {numerator denominator bound : Nat} (bottom : 0 < denominator)
    (le : (bound : ℚ) ≤ numerator / denominator) : bound ≤ nearest numerator denominator := by
  have lower := (abs_le.mp (abs_nearest_sub numerator bottom).1).1
  exact Nat.lt_succ_iff.mp (by exact_mod_cast (by linarith :
    (bound : ℚ) < nearest numerator denominator + 1))

/-- The exponent to which a value is rounded. -/
def roundingExponent (value : ℚ) : Int := max (-1074) (Int.log 2 value - 52)

theorem roundingExponent_eq {mantissa : Nat} (positive : 0 < mantissa) (exponent : Int) :
    roundingExponent (mantissa * 2 ^ exponent) = max (-1074) ((mantissa.log2 : Int) + exponent - 52) := by
  rw [roundingExponent, log_value positive]

theorem lt_roundingExponent (value : ℚ) : value * 2 ^ (-roundingExponent value) < 2 * exponentWeight := by
  have scale : (0 : ℚ) < 2 ^ (-roundingExponent value) := by positivity
  have high : value < 2 ^ (Int.log 2 value + 1) := by
    exact_mod_cast Int.lt_zpow_succ_log_self (b := 2) (by decide) value
  calc value * 2 ^ (-roundingExponent value)
      < 2 ^ (Int.log 2 value + 1) * 2 ^ (-roundingExponent value) := mul_lt_mul_of_pos_right high scale
    _ = 2 ^ (Int.log 2 value + 1 - roundingExponent value) := by
      rw [← zpow_add₀ (by norm_num), ← sub_eq_add_neg]
    _ ≤ 2 ^ (53 : Int) := by
      apply zpow_le_zpow_right₀ (by norm_num)
      unfold roundingExponent
      omega
    _ = 2 * exponentWeight := by norm_num [exponentWeight]

theorem roundingExponent_le {value : ℚ} (positive : 0 < value) (above : -1074 < roundingExponent value) :
    exponentWeight ≤ value * 2 ^ (-roundingExponent value) := by
  have scale : (0 : ℚ) < 2 ^ (-roundingExponent value) := by positivity
  have low : (2 : ℚ) ^ Int.log 2 value ≤ value := by
    exact_mod_cast Int.zpow_log_le_self (b := 2) (by decide) positive
  calc (exponentWeight : ℚ) = 2 ^ (52 : Int) := by norm_num [exponentWeight]
    _ = 2 ^ (Int.log 2 value - roundingExponent value) := by
      congr 1
      unfold roundingExponent at *
      omega
    _ = 2 ^ Int.log 2 value * 2 ^ (-roundingExponent value) := by
      rw [← zpow_add₀ (by norm_num), ← sub_eq_add_neg]
    _ ≤ value * 2 ^ (-roundingExponent value) := mul_le_mul_of_nonneg_right low scale.le

private theorem roundingExponent_mono {value larger : ℚ} (positive : 0 < value) (le : value ≤ larger) :
    roundingExponent value ≤ roundingExponent larger :=
  max_le_max_left _ (sub_le_sub_right (Int.log_mono_right positive le) _)

/-- The word of a magnitude in terms of its value: the exponent, and the nearest mantissa. -/
theorem magnitudeWord_of_ratio {numerator denominator : Nat} (top : 0 < numerator)
    (bottom : 0 < denominator) {exponent : Int}
    (chosen : roundingExponent ((numerator : ℚ) / denominator) = exponent) :
    magnitudeWord numerator denominator = min (2047 * exponentWeight)
      ((exponent + 1074).toNat * exponentWeight +
        nearest (scaled numerator denominator (-exponent)).1
          (scaled numerator denominator (-exponent)).2) := by
  have same : max (-1074) (floorLog2 numerator denominator - 52) = exponent := by
    rw [floorLog2_eq top bottom, ← chosen, roundingExponent]
  unfold magnitudeWord
  dsimp only
  rw [same]

private theorem magnitudeWord_mono {numerator denominator numerator' denominator' : Nat}
    (top : 0 < numerator)
    (bottom : 0 < denominator) (bottom' : 0 < denominator')
    (le : (numerator : ℚ) / denominator ≤ numerator' / denominator') :
    magnitudeWord numerator denominator ≤ magnitudeWord numerator' denominator' := by
  have positive : (0 : ℚ) < (numerator : ℚ) / denominator := by positivity
  have top' : 0 < numerator' := by
    refine Nat.pos_of_ne_zero fun zero => ?_
    rw [zero, Nat.cast_zero, zero_div] at le
    linarith
  have ordered := roundingExponent_mono positive le
  have least : -1074 ≤ roundingExponent ((numerator : ℚ) / denominator) := le_max_left ..
  have below := lt_roundingExponent ((numerator : ℚ) / denominator)
  have above := roundingExponent_le (positive.trans_le le)
  generalize chosen : roundingExponent ((numerator : ℚ) / denominator) = exponent at *
  generalize chosen' : roundingExponent ((numerator' : ℚ) / denominator') = exponent' at *
  have parts := scaled_value numerator denominator (-exponent)
  have parts' := scaled_value numerator' denominator' (-exponent')
  have divisor := scaled_pos numerator bottom (-exponent)
  have divisor' := scaled_pos numerator' bottom' (-exponent')
  rw [magnitudeWord_of_ratio top bottom chosen, magnitudeWord_of_ratio top' bottom' chosen']
  apply min_le_min_left
  rcases ordered.eq_or_lt with rfl | further
  · have scale : (0 : ℚ) ≤ 2 ^ (-exponent) := by positivity
    exact Nat.add_le_add_left (nearest_mono divisor divisor'
      (parts ▸ parts' ▸ mul_le_mul_of_nonneg_right le scale)) _
  · -- The smaller mantissa is rounded to the least one of the next exponent at most.
    have short := nearest_le_of_le (2 * exponentWeight) divisor
      (by rw [parts]; exact_mod_cast below.le)
    have long := le_nearest_of_le divisor' (by rw [parts']; exact above (by omega))
    unfold exponentWeight at *
    omega

/-- The word of the magnitude nearest to a value. -/
def magnitude (value : ℚ) : Nat :=
  if value = 0 then 0 else magnitudeWord value.num.natAbs value.den

@[simp] theorem magnitude_zero : magnitude 0 = 0 := if_pos rfl

/-- The value of a ratio decides its word. -/
theorem magnitude_ratio {numerator denominator : Nat} (top : 0 < numerator) (bottom : 0 < denominator) :
    magnitude ((numerator : ℚ) / denominator) = magnitudeWord numerator denominator := by
  have positive : (0 : ℚ) < (numerator : ℚ) / denominator := by positivity
  have same : (((numerator : ℚ) / denominator).num.natAbs : ℚ) / ((numerator : ℚ) / denominator).den =
      numerator / denominator := by
    rw [Nat.cast_natAbs, abs_of_nonneg (Rat.num_nonneg.mpr positive.le), Rat.num_div_den]
  have reduced : 0 < ((numerator : ℚ) / denominator).num.natAbs :=
    Int.natAbs_pos.mpr (Rat.num_ne_zero.mpr positive.ne')
  rw [magnitude, if_neg positive.ne']
  exact le_antisymm (magnitudeWord_mono reduced (Rat.den_pos _) bottom same.le)
    (magnitudeWord_mono top bottom (Rat.den_pos _) same.ge)

private theorem exists_ratio {value : ℚ} (positive : 0 < value) :
    ∃ numerator denominator : Nat, 0 < numerator ∧ 0 < denominator ∧ (numerator : ℚ) / denominator = value := by
  refine ⟨value.num.natAbs, value.den, Int.natAbs_pos.mpr (Rat.num_ne_zero.mpr positive.ne'), value.den_pos, ?_⟩
  rw [Nat.cast_natAbs, abs_of_nonneg (Rat.num_nonneg.mpr positive.le), Rat.num_div_den]

theorem magnitude_mono {value larger : ℚ} (positive : 0 ≤ value) (le : value ≤ larger) :
    magnitude value ≤ magnitude larger := by
  rcases positive.eq_or_lt with rfl | positive
  · simp
  · obtain ⟨numerator, denominator, top, bottom, rfl⟩ := exists_ratio positive
    obtain ⟨numerator', denominator', top', bottom', rfl⟩ := exists_ratio (positive.trans_le le)
    rw [magnitude_ratio top bottom, magnitude_ratio top' bottom']
    exact magnitudeWord_mono top bottom bottom' le

/-- A value is rounded to the nearest mantissa at its exponent, whatever ratio gives the mantissa. -/
theorem magnitude_eq {value : ℚ} (positive : 0 < value) (numerator : Nat) {denominator : Nat}
    (bottom : 0 < denominator)
    (ratio : (numerator : ℚ) / denominator = value * 2 ^ (-roundingExponent value)) :
    magnitude value = min (2047 * exponentWeight)
      ((roundingExponent value + 1074).toNat * exponentWeight + nearest numerator denominator) := by
  obtain ⟨numerator', denominator', top', bottom', rfl⟩ := exists_ratio positive
  have divisor := scaled_pos numerator' bottom' (-roundingExponent ((numerator' : ℚ) / denominator'))
  have same := (scaled_value numerator' denominator'
    (-roundingExponent ((numerator' : ℚ) / denominator'))).trans ratio.symm
  rw [magnitude_ratio top' bottom', magnitudeWord_of_ratio top' bottom' rfl]
  congr 2
  exact le_antisymm (nearest_mono divisor bottom same.le) (nearest_mono bottom divisor same.ge)

/-- A value that needs no rounding has the word that it is kept in. -/
theorem magnitude_of_proper {mantissa : Nat} {exponent : Int} (proper : Proper mantissa exponent) :
    magnitude ((mantissa : ℚ) * 2 ^ exponent) = (exponent + 1074).toNat * exponentWeight + mantissa := by
  have positive : (0 : ℚ) < mantissa := by exact_mod_cast proper.positive
  obtain ⟨numerator, denominator, top, bottom, same⟩ := exists_ratio
    (by positivity : 0 < (mantissa : ℚ) * 2 ^ exponent)
  rw [← same, magnitude_ratio top bottom, magnitudeWord_eq proper top bottom same]

theorem magnitude_le (value : ℚ) : magnitude value ≤ 2047 * exponentWeight := by
  unfold magnitude magnitudeWord
  dsimp only
  split
  · exact Nat.zero_le _
  · exact min_le_left _ _

/-- Rounding a ratio depends on its value alone. -/
theorem ofRatio_eq (negative : Bool) (numerator : Nat) {denominator : Nat} (bottom : 0 < denominator) :
    ofRatio negative numerator denominator = Float.ofBits (UInt64.ofNat
      (magnitude ((numerator : ℚ) / denominator) + if negative then signWeight else 0)) := by
  rcases Nat.eq_zero_or_pos numerator with rfl | top
  · simp [ofRatio]
  · have common : 0 < numerator.gcd denominator := Nat.gcd_pos_of_pos_left _ top
    have divisor : (numerator.gcd denominator : ℚ) ≠ 0 := by positivity
    have reduced := magnitude_ratio
      (Nat.div_pos (Nat.le_of_dvd top (Nat.gcd_dvd_left _ _)) common)
      (Nat.div_pos (Nat.le_of_dvd bottom (Nat.gcd_dvd_right _ _)) common)
    rw [Nat.cast_div (Nat.gcd_dvd_left _ _) divisor, Nat.cast_div (Nat.gcd_dvd_right _ _) divisor,
      div_div_div_cancel_right₀ divisor] at reduced
    rw [reduced, ofRatio]
    rw [if_neg top.ne']

end MaskLayout.Binary64
