import MaskLayout.Json.Numeral
import MaskLayout.Proofs.Binary64.Rounding

namespace MaskLayout

open Binary64

namespace Decimal

private theorem toFloat_whole (digits : Nat) (negative : Bool) {exponent : Nat} (few : exponent ≤ 400) :
    (⟨digits, exponent⟩ : Decimal).toFloat negative =
      ofRatio negative (digits * Nat.pow 10 exponent) 1 := by
  unfold toFloat
  by_cases zero : digits = 0
  · simp [zero]
  · dsimp only
    rw [if_neg zero, if_neg (by omega), if_neg (by omega), if_pos (Int.natCast_nonneg exponent)]
    rfl

/-- A number with so many digits after the point that they cannot all be out of range. -/
theorem toFloat_places {digits places : Nat} (negative : Bool) (positive : 0 < places)
    (long : places ≤ digits.log2 + 400) :
    (⟨digits, -(places : Int)⟩ : Decimal).toFloat negative =
      ofRatio negative digits (Nat.pow 10 places) := by
  have bottom : 0 < Nat.pow 10 places := Nat.pow_pos (by decide)
  unfold toFloat
  by_cases zero : digits = 0
  · rw [if_pos zero, zero]
    simpa using (ofRatio_mul negative 0 1 bottom).symm
  · dsimp only
    rw [if_neg zero, if_neg (by omega), if_neg (by omega), if_neg (by omega), neg_neg]
    rfl

/-- The value written out in full is the value. -/
theorem toFloat_exact {x : Float} {negative : Bool} {mantissa : Nat} {exponent : Int}
    (finite : parts x = .finite negative mantissa exponent) :
    (exact mantissa exponent).toFloat negative = x := by
  unfold exact
  split
  · rename_i upward
    obtain ⟨steps, rfl⟩ := Int.eq_ofNat_of_zero_le upward
    refine (toFloat_whole _ negative (Nat.zero_le _)).trans (ofRatio_of_parts finite (by decide) ?_)
    simp [Nat.shiftLeft_eq]
  · rename_i downward
    obtain ⟨steps, same⟩ := Int.eq_ofNat_of_zero_le (show 0 ≤ -exponent by omega)
    obtain rfl : exponent = -(steps : Int) := by omega
    rw [neg_neg, Int.toNat_natCast]
    have bottom : 0 < Nat.pow 10 steps := Nat.pow_pos (by decide)
    have long : mantissa ≠ 0 → steps ≤ (mantissa * Nat.pow 5 steps).log2 := by
      intro nonzero
      have power : 2 ^ steps ≤ 5 ^ steps := Nat.pow_le_pow_left (by decide) steps
      refine (Nat.le_log2 (Nat.mul_ne_zero nonzero (by simp))).mpr (power.trans ?_)
      exact Nat.le_mul_of_pos_left _ (Nat.pos_of_ne_zero nonzero)
    have value : ((mantissa * Nat.pow 5 steps : Nat) : ℚ) / (Nat.pow 10 steps : Nat) =
        mantissa * 2 ^ (-(steps : Int)) := by
      have five : (5 : ℚ) ^ steps ≠ 0 := by positivity
      have ten : (10 : ℚ) ^ steps = 2 ^ steps * 5 ^ steps := by
        rw [← mul_pow]
        norm_num
      simp only [Nat.pow_eq, Nat.cast_mul, Nat.cast_pow, Nat.cast_ofNat, ten, zpow_neg, zpow_natCast]
      rw [mul_div_mul_right _ _ five, div_eq_mul_inv]
    refine Eq.trans ?_ (ofRatio_of_parts finite bottom value)
    by_cases zero : mantissa = 0
    · simp only [zero, Nat.zero_mul]
      simpa [toFloat] using (ofRatio_mul negative 0 1 bottom).symm
    · exact toFloat_places negative (by omega) (by have := long zero; omega)

/-- What is read back is a number as it was printed. -/
theorem readsAs_iff {decimal : Decimal} {x : Float} :
    decimal.readsAs x ↔ decimal.toFloat (isNegative x) = x :=
  same_iff

private theorem neighbour?_readsAs {value : Decimal} {tie : Tie} {x : Float} {dropped : Nat}
    {decimal : Decimal} (found : value.neighbour? tie x dropped = some decimal) :
    decimal.readsAs x := by
  unfold neighbour? at found
  dsimp only at found
  split at found
  · rename_i below
    cases found
    exact (Bool.and_eq_true_iff.mp below).1
  · split at found
    · rename_i above
      cases found
      exact above
    · cases found

private theorem search_readsAs {value : Decimal} {x : Float} (reads : value.readsAs x) (tie : Tie) :
    (value.search tie x).readsAs x := by
  unfold search
  dsimp only
  generalize (List.range 17).filter (· < value.count) = grids
  cases found : grids.findSome? fun kept => value.neighbour? tie x (value.count - 1 - kept) with
  | none => exact reads
  | some decimal =>
    obtain ⟨kept, _, tried⟩ := List.exists_of_findSome?_eq_some found
    exact neighbour?_readsAs tried

/-- A finite number has a shortest decimal, and that reads back. -/
theorem exists_shortest? {x : Float} (finite : x.isFinite) (tie : Tie) :
    ∃ decimal, shortest? tie x = some decimal ∧ decimal.readsAs x := by
  obtain ⟨mantissa, exponent, split⟩ := exists_parts finite
  cases mantissa with
  | zero =>
    refine ⟨⟨0, 0⟩, by simp [shortest?, split], readsAs_iff.mpr ?_⟩
    exact (toFloat_whole 0 _ (Nat.zero_le _)).trans (ofRatio_of_parts split (by decide) (by simp))
  | succ mantissa =>
    refine ⟨(exact (mantissa + 1) exponent).search tie x, by simp [shortest?, split], ?_⟩
    exact search_readsAs (readsAs_iff.mpr (toFloat_exact split)) tie

private theorem count_pos (decimal : Decimal) : 0 < decimal.count :=
  Nat.length_toDigits_pos

end Decimal

namespace Json.Numeral

/-- A zero behind the point does not change the value. -/
theorem toFloat_padded {digits exponent : Nat} (negative : Bool) (few : exponent ≤ 400) :
    (⟨digits * Nat.pow 10 (exponent + 1), -1⟩ : Decimal).toFloat negative =
      (⟨digits, exponent⟩ : Decimal).toFloat negative := by
  rw [Decimal.toFloat_whole digits negative few]
  have long : 1 ≤ (digits * Nat.pow 10 (exponent + 1)).log2 + 400 := by omega
  have places : (⟨digits * Nat.pow 10 (exponent + 1), -1⟩ : Decimal).toFloat negative =
      ofRatio negative (digits * Nat.pow 10 (exponent + 1)) (Nat.pow 10 1) :=
    Decimal.toFloat_places negative (by decide) long
  have ratio := ofRatio_mul negative (digits * Nat.pow 10 exponent) 1 (show 0 < 10 by decide)
  rw [places, ← ratio]
  simp [Nat.pow_succ, Nat.mul_assoc]

/-- A finite number is printed, and not as a whole number, and read back. -/
theorem exists_ofFloat? {x : Float} (finite : x.isFinite) :
    ∃ numeral, ofFloat? x = some numeral ∧ numeral.whole = false ∧ numeral.toFloat = x := by
  obtain ⟨⟨digits, exponent⟩, found, reads⟩ := Decimal.exists_shortest? finite .even
  rw [Decimal.readsAs_iff] at reads
  refine ⟨_, by rw [ofFloat?, found]; rfl, rfl, ?_⟩
  dsimp only [toFloat]
  split
  · rename_i plain
    obtain ⟨upward, within⟩ := plain
    obtain ⟨exponent, rfl⟩ := Int.eq_ofNat_of_zero_le upward
    have count := Decimal.count_pos ⟨digits, exponent⟩
    have few : exponent ≤ 400 := by
      have bounds := of_decide_eq_true within
      unfold Decimal.leading at bounds
      dsimp only at bounds
      omega
    exact (toFloat_padded _ few).trans reads
  · exact reads

end Json.Numeral

end MaskLayout
