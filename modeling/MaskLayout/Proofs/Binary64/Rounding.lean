import Mathlib.Algebra.Order.Field.Power
import Mathlib.Data.Int.Log
import Mathlib.Data.Nat.Cast.Field
import Mathlib.Data.Rat.Floor
import Mathlib.Tactic.FieldSimp
import Mathlib.Tactic.Ring
import Mathlib.Tactic.Positivity
import MaskLayout.Proofs.Binary64.Words

namespace MaskLayout.Binary64

theorem scaled_pos (numerator : Nat) {denominator : Nat} (bottom : 0 < denominator) (exponent : Int) :
    0 < (scaled numerator denominator exponent).2 := by
  unfold scaled
  split
  · exact bottom
  · rw [Nat.shiftLeft_eq]
    exact Nat.mul_pos bottom (Nat.two_pow_pos _)

/-- Scaling multiplies by a power of two. -/
theorem scaled_value (numerator denominator : Nat) (exponent : Int) :
    ((scaled numerator denominator exponent).1 : ℚ) / (scaled numerator denominator exponent).2 =
      numerator / denominator * 2 ^ exponent := by
  unfold scaled
  split
  · rename_i upward
    obtain ⟨steps, rfl⟩ := Int.eq_ofNat_of_zero_le upward
    rw [Int.toNat_natCast, Nat.shiftLeft_eq, zpow_natCast]
    push_cast
    ring
  · rename_i downward
    obtain ⟨steps, same⟩ := Int.eq_ofNat_of_zero_le (show 0 ≤ -exponent by omega)
    obtain rfl : exponent = -(steps : Int) := by omega
    rw [neg_neg, Int.toNat_natCast, Nat.shiftLeft_eq, zpow_neg, zpow_natCast]
    push_cast
    rw [div_mul_eq_div_div, div_eq_mul_inv _ ((2 : ℚ) ^ steps)]

/-- A ratio that is a whole number needs no rounding. -/
theorem nearest_eq {numerator denominator value : Nat} (bottom : 0 < denominator)
    (exact : (numerator : ℚ) / denominator = value) : nearest numerator denominator = value := by
  have positive : (denominator : ℚ) ≠ 0 := by positivity
  have product : numerator = value * denominator := by
    rw [div_eq_iff positive] at exact
    exact_mod_cast exact
  rw [product]
  simp [nearest, Nat.mul_div_cancel _ bottom, bottom]

private theorem log2_ratio {numerator denominator : Nat} (top : 0 < numerator)
    (bottom : 0 < denominator) :
    (2 : ℚ) ^ ((numerator.log2 : Int) - denominator.log2 - 1) < numerator / denominator ∧
      (numerator : ℚ) / denominator < 2 ^ ((numerator.log2 : Int) - denominator.log2 + 1) := by
  have two : (2 : ℚ) ≠ 0 := by norm_num
  have positive : (0 : ℚ) < denominator := by positivity
  have numerator_low : (2 : ℚ) ^ numerator.log2 ≤ numerator := by
    exact_mod_cast Nat.log2_self_le top.ne'
  have numerator_high : (numerator : ℚ) < 2 ^ (numerator.log2 + 1) := by
    exact_mod_cast Nat.lt_log2_self
  have denominator_low : (2 : ℚ) ^ denominator.log2 ≤ denominator := by
    exact_mod_cast Nat.log2_self_le bottom.ne'
  have denominator_high : (denominator : ℚ) < 2 ^ (denominator.log2 + 1) := by
    exact_mod_cast Nat.lt_log2_self
  constructor
  · rw [lt_div_iff₀ positive, sub_sub, zpow_sub₀ two, div_mul_eq_mul_div, div_lt_iff₀ (by positivity),
      zpow_natCast]
    exact_mod_cast mul_lt_mul' numerator_low denominator_high positive.le (by positivity)
  · have scale : (0 : ℚ) < 2 ^ (denominator.log2 : Int) := by positivity
    rw [div_lt_iff₀ positive, sub_add_eq_add_sub, zpow_sub₀ two, div_mul_eq_mul_div,
      lt_div_iff₀ scale, zpow_natCast]
    exact_mod_cast mul_lt_mul numerator_high denominator_low (by positivity) (by positivity)

private theorem le_scaled_iff {numerator denominator : Nat} (bottom : 0 < denominator) (exponent : Int) :
    (scaled numerator denominator (-exponent)).2 ≤ (scaled numerator denominator (-exponent)).1 ↔
      (2 : ℚ) ^ exponent ≤ numerator / denominator := by
  have positive : (0 : ℚ) < (scaled numerator denominator (-exponent)).2 := by
    exact_mod_cast scaled_pos numerator bottom _
  have scale : (0 : ℚ) < 2 ^ exponent := by positivity
  have lifted : (scaled numerator denominator (-exponent)).2 ≤ (scaled numerator denominator (-exponent)).1 ↔
      ((scaled numerator denominator (-exponent)).2 : ℚ) ≤ (scaled numerator denominator (-exponent)).1 :=
    Nat.cast_le.symm
  rw [lifted, ← one_le_div positive, scaled_value, zpow_neg, ← div_eq_mul_inv, one_le_div scale]

private theorem log_eq {value : ℚ} {exponent : Int} (positive : 0 < value)
    (low : (2 : ℚ) ^ exponent ≤ value)
    (high : value < (2 : ℚ) ^ (exponent + 1)) : Int.log 2 value = exponent := by
  have first := (Int.zpow_le_iff_le_log (b := 2) (by decide) positive).mp (by exact_mod_cast low)
  have second := (Int.lt_zpow_iff_log_lt (b := 2) (by decide) positive).mp (by exact_mod_cast high)
  omega

theorem floorLog2_eq {numerator denominator : Nat} (top : 0 < numerator) (bottom : 0 < denominator) :
    floorLog2 numerator denominator = Int.log 2 ((numerator : ℚ) / denominator) := by
  have positive : (0 : ℚ) < (numerator : ℚ) / denominator := by positivity
  obtain ⟨low, high⟩ := log2_ratio top bottom
  unfold floorLog2
  dsimp only
  split
  · rename_i reached
    exact (log_eq positive ((le_scaled_iff bottom _).mp reached) high).symm
  · rename_i missed
    rw [le_scaled_iff bottom, not_le] at missed
    exact (log_eq positive low.le (by rwa [sub_add_cancel])).symm

theorem log_value {mantissa : Nat} (positive : 0 < mantissa) (exponent : Int) :
    Int.log 2 ((mantissa : ℚ) * 2 ^ exponent) = mantissa.log2 + exponent := by
  have some : (0 : ℚ) < mantissa := by exact_mod_cast positive
  have scale : (0 : ℚ) < 2 ^ exponent := by positivity
  have two : (2 : ℚ) ≠ 0 := by norm_num
  have low : (2 : ℚ) ^ mantissa.log2 ≤ mantissa := by
    exact_mod_cast Nat.log2_self_le positive.ne'
  have high : (mantissa : ℚ) < 2 ^ (mantissa.log2 + 1) := by
    exact_mod_cast Nat.lt_log2_self
  refine log_eq (by positivity) ?_ ?_
  · rw [zpow_add₀ two, zpow_natCast]
    exact mul_le_mul_of_nonneg_right low scale.le
  · rw [add_right_comm, zpow_add₀ two]
    exact_mod_cast mul_lt_mul_of_pos_right high scale

/-- A mantissa with its exponent as they are kept in a word: as long as it can be, unless the
exponent is the least one. -/
structure Proper (mantissa : Nat) (exponent : Int) : Prop where
  positive : 0 < mantissa
  short : mantissa < 2 * exponentWeight
  low : -1074 ≤ exponent
  high : exponent ≤ 971
  long : exponentWeight ≤ mantissa ∨ exponent = -1074

/-- The exponent that rounding chooses is the one that is kept. -/
theorem Proper.exponent_eq {mantissa : Nat} {exponent : Int} (proper : Proper mantissa exponent) :
    max (-1074) ((mantissa.log2 : Int) + exponent - 52) = exponent := by
  have below : mantissa.log2 < 53 := (Nat.log2_lt proper.positive.ne').mpr proper.short
  have low := proper.low
  rcases proper.long with long | least
  · have above : 52 ≤ mantissa.log2 := (Nat.le_log2 proper.positive.ne').mpr long
    omega
  · omega

theorem magnitudeWord_eq {numerator denominator mantissa : Nat} {exponent : Int}
    (proper : Proper mantissa exponent) (top : 0 < numerator) (bottom : 0 < denominator)
    (exact : (numerator : ℚ) / denominator = mantissa * 2 ^ exponent) :
    magnitudeWord numerator denominator = (exponent + 1074).toNat * exponentWeight + mantissa := by
  have chosen : max (-1074) (floorLog2 numerator denominator - 52) = exponent := by
    rw [floorLog2_eq top bottom, exact, log_value proper.positive, proper.exponent_eq]
  have scale : (2 : ℚ) ^ exponent ≠ 0 := by positivity
  have whole : ((scaled numerator denominator (-exponent)).1 : ℚ) /
      (scaled numerator denominator (-exponent)).2 = mantissa := by
    rw [scaled_value, exact, zpow_neg, mul_assoc, mul_inv_cancel₀ scale, mul_one]
  unfold magnitudeWord
  dsimp only
  rw [chosen, nearest_eq (scaled_pos numerator bottom _) whole]
  have short := proper.short
  have high := proper.high
  unfold exponentWeight at *
  omega

/-- The word of a number with given parts, one of which may be a zero. -/
theorem toBits_of_parts {x : Float} {negative : Bool} {mantissa : Nat} {exponent : Int}
    (finite : parts x = .finite negative mantissa exponent) :
    negative = isNegative x ∧ (mantissa = 0 ∧ exponent = -1074 ∨ Proper mantissa exponent) ∧
      x.toBits.toNat = (exponent + 1074).toNat * exponentWeight + mantissa +
        if negative then signWeight else 0 := by
  have sum : _ = x.toBits.toNat := fields_sum
  have bound := x.toBits.toNat_lt
  have small : x.toBits.toNat % exponentWeight < exponentWeight := Nat.mod_lt _ (by decide)
  have below : x.toBits.toNat / exponentWeight % 2048 < 2048 := Nat.mod_lt _ (by decide)
  have sign : x.toBits.toNat / signWeight * signWeight =
      if isNegative x then signWeight else 0 := by
    unfold isNegative signWeight
    simp only [decide_eq_true_eq]
    split <;> omega
  rw [sign] at sum
  unfold parts at finite
  dsimp only at finite
  split at finite
  · split at finite <;> cases finite
  · rename_i proper
    split at finite
    · rename_i least
      rw [least] at sum
      cases finite
      refine ⟨rfl, ?_, ?_⟩
      · by_cases nothing : x.toBits.toNat % exponentWeight = 0
        · exact .inl ⟨nothing, rfl⟩
        · exact .inr ⟨by omega, by omega, by omega, by omega, .inr rfl⟩
      · rw [show ((-1074 : Int) + 1074).toNat = 0 from rfl]
        change _ = _ + if isNegative x then signWeight else 0
        omega
    · cases finite
      refine ⟨rfl, .inr ⟨by omega, by omega, by omega, by omega, .inl (by omega)⟩, ?_⟩
      change _ = _ + if isNegative x then signWeight else 0
      unfold exponentWeight at *
      omega

theorem exists_parts {x : Float} (finite : x.isFinite) :
    ∃ mantissa exponent, parts x = .finite (isNegative x) mantissa exponent := by
  have proper := isFinite_iff.mp finite
  unfold parts
  dsimp only
  rw [if_neg proper]
  split
  · exact ⟨_, _, rfl⟩
  · exact ⟨_, _, rfl⟩

theorem isFinite_of_parts {x : Float} {negative : Bool} {mantissa : Nat} {exponent : Int}
    (finite : parts x = .finite negative mantissa exponent) : x.isFinite := by
  refine isFinite_iff.mpr fun last => ?_
  unfold parts at finite
  dsimp only at finite
  rw [if_pos last] at finite
  split at finite <;> cases finite

/-- Only the ratio matters. -/
theorem ofRatio_mul (negative : Bool) (numerator denominator : Nat) {factor : Nat}
    (positive : 0 < factor) :
    ofRatio negative (numerator * factor) (denominator * factor) =
      ofRatio negative numerator denominator := by
  unfold ofRatio
  simp only [Nat.gcd_mul_right, Nat.mul_div_mul_right _ _ positive, Nat.mul_eq_zero, positive.ne',
    or_false]

/-- The exact value of a finite number is rounded to that number. -/
theorem ofRatio_of_parts {x : Float} {negative : Bool} {mantissa numerator denominator : Nat}
    {exponent : Int} (finite : parts x = .finite negative mantissa exponent)
    (bottom : 0 < denominator)
    (exact : (numerator : ℚ) / denominator = mantissa * 2 ^ exponent) :
    ofRatio negative numerator denominator = x := by
  obtain ⟨_, shape, word⟩ := toBits_of_parts finite
  have positive : (denominator : ℚ) ≠ 0 := by positivity
  have scale : (2 : ℚ) ^ exponent ≠ 0 := by positivity
  have magnitude : (if numerator = 0 then 0 else
      magnitudeWord (numerator / numerator.gcd denominator) (denominator / numerator.gcd denominator)) =
        (exponent + 1074).toNat * exponentWeight + mantissa := by
    rcases shape with ⟨rfl, rfl⟩ | proper
    · have zero : numerator = 0 := by
        rw [Nat.cast_zero, zero_mul, div_eq_zero_iff] at exact
        exact_mod_cast exact.resolve_right positive
      rw [if_pos zero]
      rfl
    · have top : 0 < numerator := by
        refine Nat.pos_of_ne_zero fun zero => ?_
        rw [zero, Nat.cast_zero, zero_div, zero_eq_mul] at exact
        exact absurd (exact.resolve_right scale) (by exact_mod_cast proper.positive.ne')
      have common : 0 < numerator.gcd denominator := Nat.gcd_pos_of_pos_left _ top
      rw [if_neg top.ne']
      refine magnitudeWord_eq proper
        (Nat.div_pos (Nat.le_of_dvd top (Nat.gcd_dvd_left _ _)) common)
        (Nat.div_pos (Nat.le_of_dvd bottom (Nat.gcd_dvd_right _ _)) common) ?_
      have divisor : (numerator.gcd denominator : ℚ) ≠ 0 := by positivity
      rw [Nat.cast_div (Nat.gcd_dvd_left _ _) divisor, Nat.cast_div (Nat.gcd_dvd_right _ _) divisor,
        div_div_div_cancel_right₀ divisor, exact]
  unfold ofRatio
  dsimp only
  rw [magnitude, ← word, UInt64.ofNat_toNat]
  exact ofBits_toBits (isFinite_of_parts finite)

end MaskLayout.Binary64
