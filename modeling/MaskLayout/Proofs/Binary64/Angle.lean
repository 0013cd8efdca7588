import MaskLayout.Proofs.Binary64.Size

namespace MaskLayout.Binary64

theorem unit_pos : (0 : Int) < unit := by
  rw [unit, Nat.shiftLeft_eq]
  positivity

/-- Each term of the series lies between nothing and the term before it. -/
theorem term_between {square : Int} (low : 0 ≤ square) (high : square ≤ unit) (power : Int) (divisor : Nat) :
    (0 ≤ power → 0 ≤ power * square / unit / divisor ∧ power * square / unit / divisor ≤ power) ∧
      (power ≤ 0 → power ≤ power * square / unit / divisor ∧ power * square / unit / divisor ≤ 0) := by
  have positive := unit_pos
  constructor
  · intro above
    have first : 0 ≤ power * square / unit := Int.ediv_nonneg (Int.mul_nonneg above low) positive.le
    have second : power * square / unit ≤ power :=
      Int.ediv_le_of_le_mul positive (Int.mul_le_mul_of_nonneg_left high above)
    exact ⟨Int.ediv_nonneg first (Int.natCast_nonneg _), (Int.ediv_le_self _ first).trans second⟩
  · intro below
    have first : power * square / unit ≤ 0 :=
      Int.ediv_le_of_le_mul positive (by nlinarith)
    have second : power ≤ power * square / unit :=
      Int.le_ediv_of_mul_le positive (by nlinarith)
    rcases Nat.eq_zero_or_pos divisor with rfl | some
    · simp [below]
    · have whole : (1 : Int) ≤ divisor := by exact_mod_cast some
      exact ⟨second.trans (Int.le_ediv_of_mul_le (by omega) (by nlinarith)),
        Int.ediv_le_of_le_mul (by omega) (by nlinarith)⟩

/-- The series lies between nothing and its first term. -/
theorem alternating_between {square : Int} (low : 0 ≤ square) (high : square ≤ unit) (steps : Nat)
    (power : Int) (k : Nat) :
    (0 ≤ power → 0 ≤ alternating square steps power k ∧ alternating square steps power k ≤ power) ∧
      (power ≤ 0 → power ≤ alternating square steps power k ∧ alternating square steps power k ≤ 0) := by
  induction steps generalizing power k with
  | zero => simp [alternating]
  | succ steps ih =>
    obtain ⟨next, next'⟩ := term_between low high power (k * (k + 1))
    obtain ⟨rest, rest'⟩ := ih (power * square / unit / (k * (k + 1) : Nat)) (k + 2)
    rw [alternating]
    constructor
    · intro above
      have term := next above
      have sum := rest term.1
      omega
    · intro below
      have term := next' below
      have sum := rest' term.2
      omega

/-- The most that is left of an angle after whole quarter turns are taken off. -/
def restBound : Int := quarterTurn / 2 / (1 <<< (turnPlaces - places) : Nat) + 1

/-- All that is needed of the digits of a quarter turn, at either number of places. -/
theorem turn_bounds : (0 < quarterTurn ∧ restBound ≤ unit) ∧
    0 ≤ shortQuarterTurn ∧ shortQuarterTurn ≤ 2 * unit := by decide +kernel

/-- Dividing to the nearest leaves at most a half. -/
theorem abs_sub_nearest_le {turn : Int} (positive : 0 < turn) (angle : Int) :
    |angle - (2 * angle + turn) / (2 * turn) * turn| ≤ turn / 2 := by
  have low := Int.ediv_mul_le (2 * angle + turn) (show 2 * turn ≠ 0 by omega)
  have high := Int.lt_ediv_add_one_mul_self (2 * angle + turn) (show 0 < 2 * turn by omega)
  have twice : (2 * angle + turn) / (2 * turn) * (2 * turn) = 2 * ((2 * angle + turn) / (2 * turn) * turn) :=
    Int.mul_left_comm ..
  rw [Int.add_mul, Int.one_mul] at high
  rw [twice] at low high
  generalize (2 * angle + turn) / (2 * turn) * turn = whole at *
  rw [abs_le]
  omega

private theorem abs_ediv_le {value bound weight : Int} (positive : 0 < weight)
    (close : |value| ≤ bound) :
    |value / weight| ≤ bound / weight + 1 := by
  obtain ⟨low, high⟩ := abs_le.mp close
  have above := Int.lt_ediv_add_one_mul_self bound positive
  rw [abs_le]
  constructor
  · exact Int.le_ediv_of_mul_le positive (by linarith)
  · have below := Int.ediv_le_ediv positive high
    omega

theorem abs_rest_le (negative : Bool) (mantissa : Nat) (exponent : Int) :
    |(reduce negative mantissa exponent).2| ≤ restBound :=
  abs_ediv_le (by rw [Nat.shiftLeft_eq]; positivity) (abs_sub_nearest_le turn_bounds.1.1 _)

theorem square_between {rest bound : Int} (close : |rest| ≤ bound) :
    0 ≤ rest * rest / unit ∧ rest * rest / unit ≤ bound * bound / unit := by
  have squares : rest * rest ≤ bound * bound :=
    abs_le_iff_mul_self_le.mp (by rwa [abs_of_nonneg ((abs_nonneg _).trans close)])
  exact ⟨Int.ediv_nonneg (mul_self_nonneg rest) unit_pos.le, Int.ediv_le_ediv unit_pos squares⟩

private theorem abs_fixedSin_le {rest : Int} (close : |rest| ≤ unit) : |fixedSin rest| ≤ unit := by
  obtain ⟨low, high⟩ := square_between close
  obtain ⟨above, below⟩ := alternating_between low
    (high.trans (Int.mul_ediv_cancel _ unit_pos.ne').le) 60 rest 2
  rw [abs_le] at *
  unfold fixedSin
  rcases le_total 0 rest with sign | sign
  · have sum := above sign
    omega
  · have sum := below sign
    omega

private theorem abs_fixedCos_le {rest : Int} (close : |rest| ≤ unit) : |fixedCos rest| ≤ unit := by
  obtain ⟨low, high⟩ := square_between close
  obtain ⟨nonneg, le⟩ := (alternating_between low
    (high.trans (Int.mul_ediv_cancel _ unit_pos.ne').le) 60 unit 1).1 (Int.natCast_nonneg _)
  exact abs_le.mpr ⟨by unfold fixedCos; omega, le⟩

theorem size_ofFixed (value : Int) : size (ofFixed value) = magnitude ((value.natAbs : ℚ) / unit) :=
  size_ofRatio _ _ (by exact_mod_cast unit_pos)

private theorem size_ofFixed_le {value : Int} (count : Nat) (close : |value| ≤ count * unit) :
    size (ofFixed value) ≤ magnitude count := by
  have positive : (0 : ℚ) < unit := by exact_mod_cast unit_pos
  have whole : (value.natAbs : ℚ) ≤ count * unit := by
    rw [Nat.cast_natAbs]
    exact_mod_cast close
  rw [size_ofFixed]
  exact magnitude_mono (div_nonneg (Nat.cast_nonneg _) positive.le) ((div_le_iff₀ positive).mpr whole)

private theorem size_ofFixed_le_one {value : Int} (close : |value| ≤ unit) :
    size (ofFixed value) ≤ size 1 := by
  rw [← magnitude_one]
  exact_mod_cast size_ofFixed_le 1 (by rwa [Nat.cast_one, one_mul])

private theorem size_le_of_isTiny {x : Float} {negative : Bool} {mantissa : Nat} {exponent : Int}
    (found : parts x = .finite negative mantissa exponent) (tiny : isTiny mantissa exponent) :
    size x ≤ size 1 := by
  rw [← magnitude_modulus (isFinite_of_parts found), ← magnitude_one]
  refine magnitude_mono (modulus_nonneg x) ?_
  rw [modulus, found]
  dsimp only
  rw [isTiny, decide_eq_true_iff] at tiny
  rcases tiny with rfl | small
  · norm_num
  · calc (mantissa : ℚ) * 2 ^ exponent
        ≤ 2 ^ ((mantissa.log2 : Int) + 1) * 2 ^ exponent := by
          refine mul_le_mul_of_nonneg_right ?_ (by positivity)
          exact_mod_cast Nat.lt_log2_self.le
      _ = 2 ^ ((mantissa.log2 : Int) + 1 + exponent) := (zpow_add₀ (by norm_num) _ _).symm
      _ ≤ 1 := zpow_le_one_of_nonpos₀ (by norm_num) (by omega)

theorem size_sin_le {x : Float} (finite : x.isFinite) : size (sin x) ≤ size 1 := by
  obtain ⟨mantissa, exponent, found⟩ := exists_parts finite
  have close := (abs_rest_le (isNegative x) mantissa exponent).trans turn_bounds.1.2
  unfold sin
  rw [found]
  dsimp only
  split
  · rename_i tiny
    exact size_le_of_isTiny found tiny
  · split
    · exact size_ofFixed_le_one (abs_fixedSin_le close)
    · exact size_ofFixed_le_one (abs_fixedCos_le close)
    · exact size_ofFixed_le_one ((abs_neg _).trans_le (abs_fixedSin_le close))
    · exact size_ofFixed_le_one ((abs_neg _).trans_le (abs_fixedCos_le close))

theorem size_cos_le {x : Float} (finite : x.isFinite) : size (cos x) ≤ size 1 := by
  obtain ⟨mantissa, exponent, found⟩ := exists_parts finite
  have close := (abs_rest_le (isNegative x) mantissa exponent).trans turn_bounds.1.2
  unfold cos
  rw [found]
  dsimp only
  split
  · exact le_rfl
  · split
    · exact size_ofFixed_le_one (abs_fixedCos_le close)
    · exact size_ofFixed_le_one ((abs_neg _).trans_le (abs_fixedSin_le close))
    · exact size_ofFixed_le_one ((abs_neg _).trans_le (abs_fixedCos_le close))
    · exact size_ofFixed_le_one (abs_fixedSin_le close)

/-- The terms of the series do not grow. -/
theorem tangent_between {square : Int} (low : 0 ≤ square) (steps : Nat) {term : Int} (above : 0 ≤ term)
    (k : Nat) : 0 ≤ fixedTangent.go square steps term k ∧
      fixedTangent.go square steps term k ≤ steps * term := by
  induction steps generalizing term k with
  | zero => simp [fixedTangent.go]
  | succ steps ih =>
    have positive : 0 < unit + square := by have := unit_pos; omega
    have ratio : 0 ≤ term * square / (unit + square) :=
      Int.ediv_nonneg (Int.mul_nonneg above low) positive.le
    have less : term * square / (unit + square) ≤ term :=
      Int.ediv_le_of_le_mul positive (Int.mul_le_mul_of_nonneg_left (by have := unit_pos; omega) above)
    have next : 0 ≤ term * square / (unit + square) * (2 * k) / (2 * k + 1 : Nat) :=
      Int.ediv_nonneg (Int.mul_nonneg ratio (by omega)) (Int.natCast_nonneg _)
    have short : term * square / (unit + square) * (2 * k) / (2 * k + 1 : Nat) ≤ term := by
      refine (Int.ediv_le_of_le_mul (by omega) ?_).trans less
      exact Int.mul_le_mul_of_nonneg_left (by omega) ratio
    obtain ⟨rest, sum⟩ := ih next (k + 1)
    have total := Int.mul_le_mul_of_nonneg_left short (Int.natCast_nonneg steps)
    rw [fixedTangent.go]
    push_cast at *
    exact ⟨by omega, by linarith⟩

private theorem fixedTangent_between {slope : Int} (low : 0 ≤ slope) (high : slope ≤ unit) :
    0 ≤ fixedTangent slope ∧ fixedTangent slope ≤ places * unit := by
  have square : 0 ≤ slope * slope / unit := Int.ediv_nonneg (mul_self_nonneg slope) unit_pos.le
  have positive : 0 < unit + slope * slope / unit := by have := unit_pos; omega
  have first : 0 ≤ slope * unit / (unit + slope * slope / unit) :=
    Int.ediv_nonneg (Int.mul_nonneg low unit_pos.le) positive.le
  have less : slope * unit / (unit + slope * slope / unit) ≤ slope :=
    Int.ediv_le_of_le_mul positive (Int.mul_le_mul_of_nonneg_left (by omega) low)
  obtain ⟨above, sum⟩ := tangent_between square places first 1
  exact ⟨above, sum.trans (Int.mul_le_mul_of_nonneg_left (less.trans high) (Int.natCast_nonneg _))⟩

private theorem slope_between {short long : Nat} (le : short ≤ long) :
    0 ≤ ((short * unit / long : Nat) : Int) ∧ ((short * unit / long : Nat) : Int) ≤ unit := by
  refine ⟨Int.natCast_nonneg _, Int.ofNat_le.mpr ?_⟩
  rcases Nat.eq_zero_or_pos long with rfl | positive
  · simp
  · exact Nat.div_le_of_le_mul (Nat.mul_le_mul_right _ le)

private theorem abs_firstQuadrant_le (rise run : Nat) : |firstQuadrant rise run| ≤ 258 * unit := by
  have turn := turn_bounds.2
  have terms : (places : Int) * unit = 256 * unit := rfl
  have positive := unit_pos
  unfold firstQuadrant
  rw [abs_le]
  split
  · rename_i flat
    obtain ⟨low, high⟩ := slope_between flat
    have angle := fixedTangent_between low high
    omega
  · rename_i steep
    obtain ⟨low, high⟩ := slope_between (not_le.mp steep).le
    have angle := fixedTangent_between low high
    omega

/-- The bound is more than any sum of angles that occurs, and still far from what is infinite. -/
theorem isFinite_ofFixed {value : Int} (close : |value| ≤ 262 * unit) : (ofFixed value).isFinite := by
  rw [isFinite_iff_size]
  exact (size_ofFixed_le 262 (by exact_mod_cast close)).trans_lt (by decide)

private theorem isFinite_eighths (negative : Bool) {count : Nat} (few : count ≤ 4) :
    (eighths negative count).isFinite := by
  obtain ⟨low, high⟩ := turn_bounds.2
  have product : 0 ≤ count * shortQuarterTurn ∧ count * shortQuarterTurn ≤ 4 * (2 * unit) :=
    ⟨Int.mul_nonneg (Int.natCast_nonneg _) low, Int.mul_le_mul (by exact_mod_cast few) high low (by norm_num)⟩
  have positive := unit_pos
  refine isFinite_ofFixed ?_
  rw [abs_le]
  split <;> omega

private theorem isFinite_tinyTangent (negative : Bool) {rise run : Nat} (flat : rise ≤ run)
    (positive : 0 < run) :
    (tinyTangent negative rise run).isFinite := by
  have below : rise * (3 * run * run - rise * rise) ≤ 3 * run * run * run := by
    calc rise * (3 * run * run - rise * rise)
        ≤ run * (3 * run * run) := Nat.mul_le_mul flat (Nat.sub_le _ _)
      _ = 3 * run * run * run := Nat.mul_comm _ _
  have bottom : 0 < 3 * run * run * run := by positivity
  have bottom' : (0 : ℚ) < (3 * run * run * run : Nat) := by exact_mod_cast bottom
  rw [isFinite_iff_size, tinyTangent, size_ofRatio _ _ bottom]
  calc magnitude _ ≤ magnitude 1 := magnitude_mono (by positivity)
        ((div_le_one bottom').mpr (by exact_mod_cast below))
    _ = size 1 := magnitude_one
    _ < infiniteSize := size_lt_of_finite isFinite_one

private theorem isFinite_angleOf (down left : Bool) {rise run : Nat} (positive : 0 < run) :
    (angleOf down left rise run).isFinite := by
  have close := abs_firstQuadrant_le rise run
  have turn := turn_bounds.2
  unfold angleOf
  split
  · rename_i tiny
    refine isFinite_tinyTangent down (?_ : rise ≤ run) positive
    have shifted := tiny.2
    rw [Nat.shiftLeft_eq] at shifted
    omega
  · refine isFinite_ofFixed ?_
    rw [abs_le] at *
    split <;> split <;> omega

/-- The angle of finite components is finite. -/
theorem isFinite_atan2 {x y : Float} (finite : x.isFinite) (finite' : y.isFinite) :
    (atan2 y x).isFinite := by
  obtain ⟨n, q, found⟩ := exists_parts finite
  obtain ⟨m, p, found'⟩ := exists_parts finite'
  unfold atan2
  rw [found, found']
  rcases m with _ | m
  · change (if isNegative x then eighths (isNegative y) 4 else ofRatio (isNegative y) 0 1).isFinite
    split
    · exact isFinite_eighths _ le_rfl
    · rw [isFinite_iff_size, size_ofRatio _ _ Nat.one_pos, Nat.cast_zero, zero_div, magnitude_zero]
      decide
  · rcases n with _ | n
    · exact isFinite_eighths _ (by decide)
    · refine isFinite_angleOf _ _ ?_
      rw [Nat.shiftLeft_eq]
      positivity

end MaskLayout.Binary64
