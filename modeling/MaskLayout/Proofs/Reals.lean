import Mathlib
import MaskLayout.Proofs.Exact

namespace MaskLayout

def Reals : Type := ℝ

/-- The integer part of a real number, rounded toward zero. -/
noncomputable def Reals.whole (value : ℝ) : Int := if 0 ≤ value then ⌊value⌋ else ⌈value⌉

noncomputable instance : Scalar Reals where
  zero := (0 : ℝ)
  one := (1 : ℝ)
  add := (fun a b => a + b : ℝ → ℝ → ℝ)
  sub := (fun a b => a - b : ℝ → ℝ → ℝ)
  mul := (fun a b => a * b : ℝ → ℝ → ℝ)
  div := (fun a b => a / b : ℝ → ℝ → ℝ)
  neg := (fun a => -a : ℝ → ℝ)
  lt := (fun a b => a < b : ℝ → ℝ → Prop)
  le := (fun a b => a ≤ b : ℝ → ℝ → Prop)
  min := (fun a b => min a b : ℝ → ℝ → ℝ)
  max := (fun a b => max a b : ℝ → ℝ → ℝ)
  decideLt := Real.decidableLT
  decideLe := Real.decidableLE
  abs := (fun a => |a| : ℝ → ℝ)
  sqrt := Real.sqrt
  hypot := (fun x y => √(x * x + y * y) : ℝ → ℝ → ℝ)
  sin := Real.sin
  cos := Real.cos
  atan2 := (fun y x => Complex.arg ⟨x, y⟩ : ℝ → ℝ → ℝ)
  truncate value := max Int64.minValue.toInt (min Int64.maxValue.toInt (Reals.whole value))
  tolerance := (1e-9 : ℝ)
  degree := (Real.pi / 180 : ℝ)
  radian := (180 / Real.pi : ℝ)

instance : Scalar.IsExact Reals where
  add_assoc := fun (a b c : ℝ) => add_assoc a b c
  add_comm := fun (a b : ℝ) => add_comm a b
  zero_add := fun (a : ℝ) => zero_add a
  mul_assoc := fun (a b c : ℝ) => mul_assoc a b c
  mul_comm := fun (a b : ℝ) => mul_comm a b
  one_mul := fun (a : ℝ) => one_mul a
  zero_mul := fun (a : ℝ) => zero_mul a
  mul_add := fun (a b c : ℝ) => mul_add a b c

namespace Reals

theorem not_lt_iff {a b : Reals} : ¬ a < b ↔ b ≤ a := @not_lt ℝ _ a b

theorem eq_of_abs_eq_one {a : Reals} (unit : Scalar.abs a = 1) : a = 1 ∨ a = -1 :=
  @eq_or_eq_neg_of_abs_eq ℝ _ _ a 1 unit

theorem le_of_unseen {a : Reals} (unseen : Scalar.visible a = false) : Scalar.abs a ≤ Scalar.tolerance :=
  not_lt_iff.mp (of_decide_eq_false unseen)

theorem abs_sub_self_le (a : Reals) : Scalar.abs (a - a) ≤ Scalar.tolerance := by
  have nothing : Scalar.abs (a - a) = 0 := (congrArg abs (@sub_self ℝ _ a)).trans (@abs_zero ℝ _ _ _)
  rw [nothing]
  exact (by norm_num : (0 : ℝ) ≤ 1e-9)

theorem abs_zero_sub_le {a : Reals} (unseen : Scalar.visible a = false) :
    Scalar.abs (0 - a) ≤ Scalar.tolerance := by
  have same : Scalar.abs (0 - a) = Scalar.abs a :=
    (congrArg abs (@zero_sub ℝ _ a)).trans (@abs_neg ℝ _ _ a)
  rw [same]
  exact le_of_unseen unseen

theorem tolerance_le_one : (Scalar.tolerance : Reals) ≤ 1 := show (1e-9 : ℝ) ≤ 1 by norm_num

/-- The angle of a vector leads back to the vector. -/
theorem hypot_mul_direction (x y : Reals) :
    Scalar.hypot x y * Scalar.cos (Scalar.atan2 y x) = x ∧
      Scalar.hypot x y * Scalar.sin (Scalar.atan2 y x) = y := by
  have norm : ‖(⟨x, y⟩ : ℂ)‖ = (Scalar.hypot x y : Reals) := rfl
  exact ⟨norm ▸ Complex.norm_mul_cos_arg ⟨x, y⟩, norm ▸ Complex.norm_mul_sin_arg ⟨x, y⟩⟩

end Reals

end MaskLayout
