import MaskLayout.Proofs.Geometry.Decomposition
import MaskLayout.Proofs.Reals

namespace MaskLayout.Transform

open Scalar

/-- A column is put together from the parts across a direction and along it. -/
theorem second_column_of_parts {cos sin x y height slant : ℝ} (whole : cos ^ 2 + sin ^ 2 = 1)
    (high : 1e-9 ≤ |height|) (across : height = y * cos - x * sin)
    (along : slant = (x * cos + y * sin) / height) :
    (cos * slant + -sin) * height = x ∧ (sin * slant + cos) * height = y := by
  have some : height ≠ 0 := by
    rintro rfl
    norm_num at high
  have product : slant * height = x * cos + y * sin := by rw [along, div_mul_cancel₀ _ some]
  constructor
  · calc (cos * slant + -sin) * height = cos * (slant * height) - sin * height := by ring
      _ = cos * (x * cos + y * sin) - sin * (y * cos - x * sin) := by rw [product, ← across]
      _ = x := by linear_combination x * whole
  · calc (sin * slant + cos) * height = sin * (slant * height) + cos * height := by ring
      _ = sin * (x * cos + y * sin) + cos * (y * cos - x * sin) := by rw [product, ← across]
      _ = y := by linear_combination y * whole

private theorem determinant_of_parts {cos sin a b c d width : ℝ} (first : width * cos = a)
    (second : width * sin = c) : a * d - b * c = width * (d * cos - b * sin) := by
  rw [← first, ← second]
  ring

private theorem mul_neg_iff_of_wide {width height : ℝ} (wide : 1e-9 ≤ width) :
    width * height < 0 ↔ height < 0 := by
  have positive : 0 < width := lt_of_lt_of_le (by norm_num) wide
  exact ⟨fun less => neg_of_mul_neg_right less positive.le, mul_neg_of_pos_of_neg positive⟩

variable {transform : Transform Reals}

/-- The decomposition where the horizontal scale is not taken for none. -/
theorem decompose_of_wide (wide : (tolerance : Reals) ≤ transform.decompose.scaleX) :
    transform.decompose.angle = atan2 transform.yx transform.xx ∧
      transform.decompose.scaleY = transform.yy * cos transform.decompose.angle -
        transform.xy * sin transform.decompose.angle ∧
      transform.decompose.shear =
        if Scalar.abs transform.decompose.scaleY < tolerance then
          transform.xy * cos transform.decompose.angle + transform.yy * sin transform.decompose.angle
        else (transform.xy * cos transform.decompose.angle + transform.yy * sin transform.decompose.angle) /
          transform.decompose.scaleY := by
  rw [scaleX_eq_hypot] at wide
  simp only [decompose, if_neg (Reals.not_lt_iff.mpr wide), and_self]

/-- The first column is the horizontal scale in the direction of the angle. -/
theorem first_column (wide : (tolerance : Reals) ≤ transform.decompose.scaleX) :
    transform.decompose.scaleX * cos transform.decompose.angle = transform.xx ∧
      transform.decompose.scaleX * sin transform.decompose.angle = transform.yx := by
  rw [scaleX_eq_hypot, (decompose_of_wide wide).1]
  exact Reals.hypot_mul_direction _ _

/-- The second column is the vertical scale across that direction, and the shear along it. -/
theorem second_column (wide : (tolerance : Reals) ≤ transform.decompose.scaleX)
    (high : (tolerance : Reals) ≤ Scalar.abs transform.decompose.scaleY) :
    (cos transform.decompose.angle * transform.decompose.shear + -sin transform.decompose.angle) *
        transform.decompose.scaleY = transform.xy ∧
      (sin transform.decompose.angle * transform.decompose.shear + cos transform.decompose.angle) *
        transform.decompose.scaleY = transform.yy := by
  obtain ⟨_, across, along⟩ := decompose_of_wide wide
  rw [if_neg (Reals.not_lt_iff.mpr high)] at along
  exact second_column_of_parts (Real.cos_sq_add_sin_sq transform.decompose.angle) high across along

private theorem determinant_eq (wide : (tolerance : Reals) ≤ transform.decompose.scaleX) :
    transform.determinant = transform.decompose.scaleX * transform.decompose.scaleY := by
  obtain ⟨xx, yx⟩ := first_column wide
  rw [(decompose_of_wide wide).2.1]
  exact determinant_of_parts xx yx

/-- A transform mirrors exactly if its vertical scale is negative. -/
theorem doesFlip_iff (wide : (tolerance : Reals) ≤ transform.decompose.scaleX) :
    transform.doesFlip ↔ transform.decompose.scaleY < 0 := by
  rw [doesFlip, decide_eq_true_iff, determinant_eq wide]
  exact mul_neg_iff_of_wide wide

/-- The factors of a transform, multiplied, are its linear part. -/
theorem compose_factors (wide : (tolerance : Reals) ≤ transform.decompose.scaleX)
    (high : (tolerance : Reals) ≤ Scalar.abs transform.decompose.scaleY) :
    ((rotateRadians transform.decompose.angle).compose (shear transform.decompose.shear)).compose
        (scale transform.decompose.scaleX transform.decompose.scaleY) =
      linear transform.xx transform.xy transform.yx transform.yy := by
  obtain ⟨xx, yx⟩ := first_column wide
  obtain ⟨xy, yy⟩ := second_column wide high
  simp only [compose, rotateRadians, shear, scale, linear, IsExact.mul_one, IsExact.mul_zero,
    IsExact.zero_add, IsExact.add_zero, Transform.mk.injEq, and_true]
  exact ⟨(IsExact.mul_comm _ _).trans xx, xy, (IsExact.mul_comm _ _).trans yx, yy⟩

end MaskLayout.Transform
