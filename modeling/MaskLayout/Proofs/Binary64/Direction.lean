import MaskLayout.Proofs.Binary64.Angle

namespace MaskLayout.Binary64

/-- The series of `alternating` without rounding, for the first term one. -/
def series (square : ℚ) : Nat → Nat → ℚ
  | 0, _ => 0
  | steps + 1, k => 1 - square / (k * (k + 1) : Nat) * series square steps (k + 2)

variable {square square' : ℚ} {k : Nat}

private theorem two_le_divisor (start : 1 ≤ k) : (2 : ℚ) ≤ (k * (k + 1) : Nat) := by
  exact_mod_cast Nat.mul_le_mul start (Nat.succ_le_succ start)

private theorem series_between (low : 0 ≤ square) (high : square ≤ 1) (steps : Nat) (start : 1 ≤ k) :
    0 ≤ series square steps k ∧ series square steps k ≤ 1 := by
  induction steps generalizing k with
  | zero => simp [series]
  | succ steps ih =>
    have divisor := two_le_divisor start
    obtain ⟨above, below⟩ := ih (k := k + 2) (by omega)
    have ratio : 0 ≤ square / (k * (k + 1) : Nat) := by positivity
    have small : square / (k * (k + 1) : Nat) ≤ 1 := (div_le_one (by linarith)).mpr (by linarith)
    have product := mul_nonneg ratio above
    have product' := mul_le_one₀ small above below
    rw [series]
    constructor <;> linarith

private theorem half_le_series (low : 0 ≤ square) (high : square ≤ 1) (steps : Nat) (start : 1 ≤ k) :
    1 / 2 ≤ series square (steps + 1) k := by
  have divisor := two_le_divisor start
  obtain ⟨above, below⟩ := series_between low high steps (k := k + 2) (by omega)
  have ratio : 0 ≤ square / (k * (k + 1) : Nat) := by positivity
  have small : square / (k * (k + 1) : Nat) ≤ 1 / 2 := (div_le_iff₀ (by linarith)).mpr (by linarith)
  have product := mul_le_mul small below above (by norm_num)
  rw [series]
  linarith

/-- The series falls as the angle grows, at most half as fast as the square of the angle. -/
theorem series_antitone (low : 0 ≤ square) (le : square ≤ square') (high : square' ≤ 1) (steps : Nat)
    (start : 1 ≤ k) :
    0 ≤ series square steps k - series square' steps k ∧
      series square steps k - series square' steps k ≤ (square' - square) / 2 := by
  induction steps generalizing k with
  | zero =>
    simp only [series, sub_self, le_refl, true_and]
    linarith
  | succ steps ih =>
    have divisor := two_le_divisor start
    obtain ⟨fall, slow⟩ := ih (k := k + 2) (by omega)
    have difference : series square (steps + 1) k - series square' (steps + 1) k =
        ((square' - square) * series square' steps (k + 2) -
          square * (series square steps (k + 2) - series square' steps (k + 2))) / (k * (k + 1) : Nat) := by
      rw [series, series]
      ring
    have top := mul_nonneg low fall
    have upper : (square' - square) * series square' steps (k + 2) ≤ square' - square :=
      mul_le_of_le_one_right (by linarith) (series_between (low.trans le) high steps (by omega)).2
    have lower : square * (series square steps (k + 2) - series square' steps (k + 2)) ≤
        (square' - square) * series square' steps (k + 2) := by
      cases steps with
      | zero => simp [series]
      | succ steps =>
        have half := half_le_series (low.trans le) high steps (k := k + 2) (by omega)
        calc square * (series square (steps + 1) (k + 2) - series square' (steps + 1) (k + 2))
            ≤ 1 * ((square' - square) / 2) := mul_le_mul (le.trans high) slow fall (by norm_num)
          _ = (square' - square) * (1 / 2) := by ring
          _ ≤ _ := mul_le_mul_of_nonneg_left half (by linarith)
    rw [difference]
    constructor
    · exact div_nonneg (by linarith) (by linarith)
    · exact div_le_div₀ (by linarith) (by linarith) (by norm_num) divisor

private theorem abs_ediv_sub_le (value : Int) (divisor : Nat) :
    |((value / divisor : Int) : ℚ) - (value : ℚ) / divisor| ≤ 1 := by
  rw [← Rat.floor_intCast_div_natCast, abs_sub_comm, abs_of_nonneg (Int.fract_nonneg _)]
  exact (Int.fract_lt_one _).le

/-- Cutting off twice takes at most two away. -/
theorem abs_term_sub_le (power square : Int) (start : 1 ≤ k) :
    |((power * square / unit / (k * (k + 1) : Nat) : Int) : ℚ) -
      power * ((square : ℚ) / unit / (k * (k + 1) : Nat))| ≤ 2 := by
  have divisor := two_le_divisor start
  have first := abs_ediv_sub_le (power * square) unit
  have second := abs_ediv_sub_le (power * square / unit) (k * (k + 1))
  have shrunk : |((power * square / unit : Int) : ℚ) / (k * (k + 1) : Nat) -
      power * ((square : ℚ) / unit / (k * (k + 1) : Nat))| ≤ 1 := by
    calc _ = |((power * square / unit : Int) : ℚ) - ((power * square : Int) : ℚ) / unit| / (k * (k + 1) : Nat) := by
          rw [← abs_of_nonneg (show (0 : ℚ) ≤ (k * (k + 1) : Nat) by linarith), ← abs_div, sub_div,
            abs_of_nonneg (show (0 : ℚ) ≤ (k * (k + 1) : Nat) by linarith)]
          push_cast
          ring_nf
      _ ≤ 1 := (div_le_one (by linarith)).mpr (by linarith)
  calc _ ≤ _ := abs_sub_le _ (((power * square / unit : Int) : ℚ) / (k * (k + 1) : Nat)) _
    _ ≤ 2 := by linarith

/-- Each step of the fixed-point series is off by two at most. -/
theorem abs_alternating_sub_le {square : Int} (low : 0 ≤ square) (high : square ≤ unit) (steps : Nat)
    (power : Int) (start : 1 ≤ k) :
    |(alternating square steps power k : ℚ) - power * series ((square : ℚ) / unit) steps k| ≤ 2 * steps := by
  have positive : (0 : ℚ) < unit := by exact_mod_cast unit_pos
  have ratio : 0 ≤ (square : ℚ) / unit := div_nonneg (by exact_mod_cast low) positive.le
  have small : (square : ℚ) / unit ≤ 1 := (div_le_one positive).mpr (by exact_mod_cast high)
  induction steps generalizing power k with
  | zero => simp [alternating, series]
  | succ steps ih =>
    have term := abs_term_sub_le power square start
    rw [alternating, series]
    generalize power * square / unit / (k * (k + 1) : Nat) = next at *
    have rest := ih next (k := k + 2) (by omega)
    obtain ⟨above, below⟩ := series_between ratio small steps (k := k + 2) (by omega)
    generalize series ((square : ℚ) / unit) steps (k + 2) = sum at *
    generalize (square : ℚ) / unit / (k * (k + 1) : Nat) = factor at *
    have carried : |(next - power * factor) * sum| ≤ 2 := by
      rw [abs_mul, abs_of_nonneg above]
      exact (mul_le_mul term below above (by norm_num)).trans (by norm_num)
    calc _ = |-((alternating square steps next (k + 2) : ℚ) - next * sum) - (next - power * factor) * sum| := by
          push_cast
          ring_nf
      _ ≤ _ := abs_sub _ _
      _ ≤ 2 * (steps + 1 : Nat) := by
        rw [abs_neg]
        push_cast
        linarith

/-- The fixed-point cosine falls as the angle grows, but for what is cut off. -/
theorem alternating_antitone {square square' : Int} (low : 0 ≤ square) (le : square ≤ square')
    (high : square' ≤ unit) (steps : Nat) :
    alternating square' steps unit 1 - 4 * steps ≤ alternating square steps unit 1 := by
  have positive : (0 : ℚ) < unit := by exact_mod_cast unit_pos
  have smaller := abs_le.mp (abs_alternating_sub_le low (le.trans high) steps unit le_rfl)
  have larger := abs_le.mp (abs_alternating_sub_le (low.trans le) high steps unit le_rfl)
  have low : (0 : ℚ) ≤ square := by exact_mod_cast low
  have le : (square : ℚ) ≤ square' := by exact_mod_cast le
  have high : (square' : ℚ) ≤ unit := by exact_mod_cast high
  have fall := (series_antitone (div_nonneg low positive.le) (div_le_div_of_nonneg_right le positive.le)
    ((div_le_one positive).mpr high) steps le_rfl).1
  have apart := mul_nonneg positive.le fall
  have difference : ((alternating square' steps unit 1 - 4 * steps : Int) : ℚ) ≤
      alternating square steps unit 1 := by
    push_cast at *
    linarith
  exact_mod_cast difference

/-- A cosine of what reducing leaves is at least this. -/
def leastCosine : Int := fixedCos restBound - 4 * 60

private theorem leastCosine_le {rest : Int} (close : |rest| ≤ restBound) :
    leastCosine ≤ fixedCos rest := by
  obtain ⟨low, high⟩ := square_between close
  have whole := square_between ((abs_of_nonneg ((abs_nonneg _).trans close)).trans_le turn_bounds.1.2)
  exact alternating_antitone low high (whole.2.trans (Int.mul_ediv_cancel _ unit_pos.ne').le) 60

/-- The nearest number to half the root of two. -/
def diagonal : Float := 0.7071067811865476

/-- The least cosine is rounded to that number. -/
theorem leastCosine_rounded : 0 ≤ leastCosine ∧ magnitude ((leastCosine : ℚ) / unit) = size diagonal ∧
    size diagonal < size 1 := by decide +kernel

private theorem size_diagonal_le_ofFixed {value : Int} (large : leastCosine ≤ |value|) :
    size diagonal ≤ size (ofFixed value) := by
  have positive : (0 : ℚ) < unit := by exact_mod_cast unit_pos
  have large : (leastCosine : ℚ) ≤ value.natAbs := by
    rw [Nat.cast_natAbs]
    exact_mod_cast large
  obtain ⟨above, rounded, _⟩ := leastCosine_rounded
  have above : (0 : ℚ) ≤ leastCosine := by exact_mod_cast above
  rw [← rounded, size_ofFixed]
  exact magnitude_mono (div_nonneg above positive.le) (div_le_div_of_nonneg_right large positive.le)

/-- Every angle has a sine or a cosine that is as large as half the root of two. -/
theorem size_diagonal_le {x : Float} (finite : x.isFinite) :
    size diagonal ≤ size (cos x) ∨ size diagonal ≤ size (sin x) := by
  obtain ⟨mantissa, exponent, found⟩ := exists_parts finite
  have close := leastCosine_le (abs_rest_le (isNegative x) mantissa exponent)
  have large := size_diagonal_le_ofFixed (close.trans (le_abs_self _))
  have large' := size_diagonal_le_ofFixed ((close.trans (le_abs_self _)).trans (abs_neg _).ge)
  unfold cos sin
  rw [found]
  dsimp only
  split
  · exact .inl leastCosine_rounded.2.2.le
  · split
    · exact .inl large
    · exact .inr large
    · exact .inl large'
    · exact .inr large'

end MaskLayout.Binary64
