import MaskLayout.Cif.Command
import MaskLayout.Proofs.Geometry.Factors

/-!
What a placing stands for. Read from left to right, it mirrors in y, turns to a direction and then shifts.
Over the real numbers the parts of a rigid transform, read so, are the transform; and what a call leaves
out of them moves a point by no more than the tolerance for each unit of its size.
-/
namespace MaskLayout.Cif

section Reading

variable {K : Type} [Scalar K]

/-- Where a placing puts a point: its parts are applied in the order in which they are written, and a
part that is left out changes nothing. -/
def Placing.apply (placing : Placing K) (p : Point K) : Point K :=
  let mirrored : Point K := if placing.mirrored then ⟨p.x, -p.y⟩ else p
  let direction := placing.direction.getD (1, 0)
  let shift := placing.shift.getD (0, 0)
  ⟨direction.1 * mirrored.x - direction.2 * mirrored.y + shift.1,
    direction.2 * mirrored.x + direction.1 * mirrored.y + shift.2⟩

/-- All parts of a transform, also those that are not seen. -/
def fullPlacing (transform : Transform K) : Placing K where
  mirrored := transform.doesFlip
  direction := some (Scalar.cos transform.rotation, Scalar.sin transform.rotation)
  shift := some (transform.dx, transform.dy)

/-- A call writes the parts of a transform that are seen. -/
theorem placing_eq (transform : Transform K) : placing transform =
    { fullPlacing transform with
      direction := if transform.doesRotate then (fullPlacing transform).direction else none
      shift := if transform.doesTranslate then (fullPlacing transform).shift else none } := rfl

end Reading

open Scalar

private theorem rigid_point {cos sin height a b c d : ℝ} (xx : 1 * cos = a) (yx : 1 * sin = c)
    (xy : (cos * 0 + -sin) * height = b) (yy : (sin * 0 + cos) * height = d) (x y : ℝ) :
    cos * x - sin * (height * y) = a * x + b * y ∧ sin * x + cos * (height * y) = c * x + d * y := by
  subst xx yx xy yy
  constructor <;> ring

variable {transform : Transform Reals}

/-- A vertical scale of one mirrors or does nothing. -/
theorem mirrored_eq (wide : (tolerance : Reals) ≤ transform.decompose.scaleX)
    (unit : Scalar.abs transform.decompose.scaleY = 1) (p : Point Reals) :
    (if transform.doesFlip then ⟨p.x, -p.y⟩ else p) =
      (⟨p.x, transform.decompose.scaleY * p.y⟩ : Point Reals) := by
  have flips := Transform.doesFlip_iff wide
  rcases Reals.eq_of_abs_eq_one unit with same | opposite
  · rw [same] at flips ⊢
    rw [if_neg fun mirrors => absurd (flips.mp mirrors) (Reals.not_lt_iff.mpr (zero_le_one' ℝ)), IsExact.one_mul]
  · rw [opposite] at flips ⊢
    rw [if_pos (flips.mpr (neg_one_lt_zero (R := ℝ))), Point.mk.injEq]
    exact ⟨rfl, (@neg_one_mul ℝ _ _ p.y).symm⟩

/-- The parts of a rigid transform, applied one after the other, are the transform. -/
theorem apply_fullPlacing (width : transform.decompose.scaleX = 1)
    (unit : Scalar.abs transform.decompose.scaleY = 1) (straight : transform.decompose.shear = 0)
    (p : Point Reals) : (fullPlacing transform).apply p = transform.apply p := by
  have wide : (tolerance : Reals) ≤ transform.decompose.scaleX := width ▸ Reals.tolerance_le_one
  have high : (tolerance : Reals) ≤ Scalar.abs transform.decompose.scaleY := unit ▸ Reals.tolerance_le_one
  obtain ⟨xx, yx⟩ := Transform.first_column wide
  obtain ⟨xy, yy⟩ := Transform.second_column wide high
  rw [width] at xx yx
  rw [straight] at xy yy
  obtain ⟨x, y⟩ := rigid_point xx yx xy yy p.x p.y
  unfold Placing.apply fullPlacing
  dsimp only [Option.getD_some]
  rw [mirrored_eq wide unit]
  exact congrArg₂ Point.mk (congrArg (· + transform.dx) x) (congrArg (· + transform.dy) y)

/-- An angle that is not seen has a direction next to the axis. -/
theorem direction_close {angle : ℝ} (small : |angle| ≤ 1e-9) :
    |1 - Real.cos angle| ≤ 1e-9 ∧ |0 - Real.sin angle| ≤ 1e-9 := by
  have low := Real.one_sub_sq_div_two_le_cos (x := angle)
  have square := sq_le_sq' (neg_le_of_abs_le small) (le_of_abs_le small)
  refine ⟨?_, ?_⟩
  · rw [abs_of_nonneg (sub_nonneg.mpr (Real.cos_le_one angle))]
    linarith
  · rw [zero_sub, abs_neg]
    exact Real.abs_sin_le_abs.trans small

/-- Parts that are close put a point at close places. -/
theorem point_close {cos sin dx dy cos' sin' dx' dy' bound : ℝ} (first : |cos - cos'| ≤ bound)
    (second : |sin - sin'| ≤ bound) (third : |dx - dx'| ≤ bound) (fourth : |dy - dy'| ≤ bound) (x y : ℝ) :
    |cos * x - sin * y + dx - (cos' * x - sin' * y + dx')| ≤ bound * (|x| + |y| + 1) ∧
      |sin * x + cos * y + dy - (sin' * x + cos' * y + dy')| ≤ bound * (|x| + |y| + 1) := by
  have sum {a b c : ℝ} (one : |a| ≤ bound) (two : |b| ≤ bound) (three : |c| ≤ bound) :
      |a * x + b * y + c| ≤ bound * (|x| + |y| + 1) := by
    calc |a * x + b * y + c| ≤ |a| * |x| + |b| * |y| + |c| := by
          rw [← abs_mul, ← abs_mul]
          exact abs_add_three _ _ _
      _ ≤ bound * |x| + bound * |y| + bound := by gcongr
      _ = bound * (|x| + |y| + 1) := by ring
  rw [abs_sub_comm] at second
  constructor
  · calc _ = |(cos - cos') * x + (sin' - sin) * y + (dx - dx')| := by ring_nf
      _ ≤ _ := sum first second third
  · rw [abs_sub_comm] at second
    calc _ = |(sin - sin') * x + (cos - cos') * y + (dy - dy')| := by ring_nf
      _ ≤ _ := sum second first fourth

private theorem direction_of_placing (transform : Transform Reals) :
    Scalar.abs (((placing transform).direction.getD (1, 0)).1 - cos transform.rotation) ≤ tolerance ∧
      Scalar.abs (((placing transform).direction.getD (1, 0)).2 - sin transform.rotation) ≤ tolerance := by
  rw [placing_eq]
  cases turned : transform.doesRotate with
  | true => exact ⟨Reals.abs_sub_self_le _, Reals.abs_sub_self_le _⟩
  | false => exact direction_close (Reals.le_of_unseen turned)

private theorem shift_of_placing (transform : Transform Reals) :
    Scalar.abs (((placing transform).shift.getD (0, 0)).1 - transform.dx) ≤ tolerance ∧
      Scalar.abs (((placing transform).shift.getD (0, 0)).2 - transform.dy) ≤ tolerance := by
  rw [placing_eq]
  cases moved : transform.doesTranslate with
  | true => exact ⟨Reals.abs_sub_self_le _, Reals.abs_sub_self_le _⟩
  | false =>
    obtain ⟨unseen, unseen'⟩ := Bool.or_eq_false_iff.mp moved
    exact ⟨Reals.abs_zero_sub_le unseen, Reals.abs_zero_sub_le unseen'⟩

/-- What a call leaves out moves a point by the tolerance at most for each unit of its size. -/
theorem apply_placing_close (transform : Transform Reals) (p : Point Reals) :
    Scalar.abs (((placing transform).apply p).x - ((fullPlacing transform).apply p).x) ≤
        tolerance * (Scalar.abs p.x + Scalar.abs p.y + 1) ∧
      Scalar.abs (((placing transform).apply p).y - ((fullPlacing transform).apply p).y) ≤
        tolerance * (Scalar.abs p.x + Scalar.abs p.y + 1) := by
  obtain ⟨cosine, sine⟩ := direction_of_placing transform
  obtain ⟨across, along⟩ := shift_of_placing transform
  have mirrored : (fullPlacing transform).mirrored = (placing transform).mirrored := rfl
  have close := point_close cosine sine across along
  unfold Placing.apply
  rw [mirrored]
  split
  · have same : Scalar.abs (-p.y) = Scalar.abs p.y := @abs_neg ℝ _ _ p.y
    rw [← same]
    exact close p.x (-p.y)
  · exact close p.x p.y

/-- Over the real numbers the factors of a transform are its linear part, and its vertical scale tells
whether it mirrors. Of a rigid transform the parts that a call writes denote the transform, if those that
are not seen are written as well; without them no point is further away than the tolerance for each unit
of its size. -/
theorem placing_denotes (transform : Transform Reals) :
    ((tolerance : Reals) ≤ transform.decompose.scaleX →
      (tolerance : Reals) ≤ Scalar.abs transform.decompose.scaleY →
        ((Transform.rotateRadians transform.decompose.angle).compose
            (.shear transform.decompose.shear)).compose
          (.scale transform.decompose.scaleX transform.decompose.scaleY) =
            .linear transform.xx transform.xy transform.yx transform.yy ∧
        (transform.doesFlip ↔ transform.decompose.scaleY < 0)) ∧
    (transform.decompose.scaleX = 1 → Scalar.abs transform.decompose.scaleY = 1 →
      transform.decompose.shear = 0 → ∀ p,
        (fullPlacing transform).apply p = transform.apply p ∧
        Scalar.abs (((placing transform).apply p).x - (transform.apply p).x) ≤
          tolerance * (Scalar.abs p.x + Scalar.abs p.y + 1) ∧
        Scalar.abs (((placing transform).apply p).y - (transform.apply p).y) ≤
          tolerance * (Scalar.abs p.x + Scalar.abs p.y + 1)) := by
  refine ⟨fun wide high => ⟨Transform.compose_factors wide high, Transform.doesFlip_iff wide⟩,
    fun width unit straight p => ?_⟩
  have same := apply_fullPlacing width unit straight p
  exact ⟨same, same ▸ apply_placing_close transform p⟩

/-- The mirror image along a line that is neither an axis nor a diagonal, shifted. -/
noncomputable def tilted : Transform Reals := ⟨(3 / 5 : ℝ), (4 / 5 : ℝ), (4 / 5 : ℝ), (-3 / 5 : ℝ), (7 : ℝ), (-2 : ℝ)⟩

private theorem tilted_factors : tilted.decompose.scaleX = 1 ∧ tilted.decompose.scaleY = -1 ∧
    tilted.decompose.shear = 0 := by
  have width : tilted.decompose.scaleX = 1 := by
    rw [Transform.scaleX_eq_hypot]
    exact (by norm_num : √((3 / 5 : ℝ) * (3 / 5) + 4 / 5 * (4 / 5)) = 1)
  have wide : (tolerance : Reals) ≤ tilted.decompose.scaleX := width ▸ Reals.tolerance_le_one
  obtain ⟨cosine, sine⟩ := Transform.first_column wide
  rw [width, IsExact.one_mul] at cosine sine
  obtain ⟨_, across, along⟩ := Transform.decompose_of_wide wide
  rw [cosine, sine] at across along
  have height : tilted.decompose.scaleY = -1 :=
    across.trans (by norm_num : (-3 / 5 : ℝ) * (3 / 5) - 4 / 5 * (4 / 5) = -1)
  have level : tilted.xy * tilted.xx + tilted.yy * tilted.yx = 0 :=
    (by norm_num : (4 / 5 : ℝ) * (3 / 5) + -3 / 5 * (4 / 5) = 0)
  have high : ¬ Scalar.abs tilted.decompose.scaleY < tolerance :=
    Reals.not_lt_iff.mpr (height ▸ (by norm_num : (1e-9 : ℝ) ≤ |-1|))
  rw [level, if_neg high] at along
  exact ⟨width, height, along.trans (@zero_div ℝ _ _)⟩

theorem tilted_denoted : tilted.doesFlip ∧
    ((Transform.rotateRadians tilted.decompose.angle).compose (.shear 0)).compose (.scale 1 (-1)) =
      .linear tilted.xx tilted.xy tilted.yx tilted.yy ∧
    ∀ p, (fullPlacing tilted).apply p = tilted.apply p := by
  obtain ⟨width, height, straight⟩ := tilted_factors
  obtain ⟨factors, rigid⟩ := placing_denotes tilted
  have unit : Scalar.abs tilted.decompose.scaleY = 1 := height ▸ (by norm_num : |(-1 : ℝ)| = 1)
  obtain ⟨product, flips⟩ := factors (width ▸ Reals.tolerance_le_one) (unit ▸ Reals.tolerance_le_one)
  rw [width, height, straight] at product
  exact ⟨flips.mpr (height ▸ (by norm_num : (-1 : ℝ) < 0)), product,
    fun p => (rigid width unit straight p).1⟩

end MaskLayout.Cif
