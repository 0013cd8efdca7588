import MaskLayout.Geometry.Polygon

/-!
Arithmetic without rounding. Where sums and products are exact, composing transforms is associative,
and a composed transform moves a point as its parts do one after the other. The rational numbers are
exact, whatever stands in for the functions that lead out of them.
-/
namespace MaskLayout

/-- Scalars whose sums and products obey the laws of a commutative semiring. -/
class Scalar.IsExact (K : Type) [Scalar K] : Prop where
  add_assoc (a b c : K) : a + b + c = a + (b + c)
  add_comm (a b : K) : a + b = b + a
  zero_add (a : K) : 0 + a = a
  mul_assoc (a b c : K) : a * b * c = a * (b * c)
  mul_comm (a b : K) : a * b = b * a
  one_mul (a : K) : 1 * a = a
  zero_mul (a : K) : 0 * a = 0
  mul_add (a b c : K) : a * (b + c) = a * b + a * c

namespace Scalar.IsExact

variable {K : Type} [Scalar K] [IsExact K]

theorem add_zero (a : K) : a + 0 = a := by rw [add_comm, zero_add]

theorem mul_one (a : K) : a * 1 = a := by rw [mul_comm, one_mul]

theorem mul_zero (a : K) : a * 0 = 0 := by rw [mul_comm, zero_mul]

private theorem add_mul (a b c : K) : (a + b) * c = a * c + b * c := by
  rw [mul_comm, mul_add, mul_comm c a, mul_comm c b]

private theorem add_add_add_comm (a b c d : K) : a + b + (c + d) = a + c + (b + d) := by
  rw [add_assoc, add_assoc, ← add_assoc b, ← add_assoc c, add_comm b]

/-- A row, a matrix that is given by its columns, and a column. -/
theorem row_column (a b c d e f g h : K) :
    (a * c + b * d) * g + (a * e + b * f) * h = a * (c * g + e * h) + b * (d * g + f * h) := by
  simp only [add_mul, mul_add, mul_assoc]
  exact add_add_add_comm _ _ _ _

private theorem row_column_add (a b c d e f g h s t u : K) :
    (a * c + b * d) * g + (a * e + b * f) * h + (a * s + b * t + u) =
      a * (c * g + e * h + s) + b * (d * g + f * h + t) + u := by
  rw [row_column, mul_add a _ s, mul_add b _ t, add_add_add_comm (a * (c * g + e * h)) (a * s),
    ← add_assoc]

end Scalar.IsExact

namespace Transform

open Scalar

variable {K : Type} [Scalar K] [IsExact K]

@[simp] theorem apply_identity (p : Point K) : (identity : Transform K).apply p = p := by
  simp only [apply, identity, linear, IsExact.one_mul, IsExact.zero_mul, IsExact.zero_add,
    IsExact.add_zero]

@[simp] theorem identity_compose (transform : Transform K) : identity.compose transform = transform := by
  simp only [compose, identity, linear, IsExact.one_mul, IsExact.zero_mul, IsExact.zero_add,
    IsExact.add_zero]

@[simp] theorem compose_identity (transform : Transform K) : transform.compose identity = transform := by
  simp only [compose, identity, linear, IsExact.mul_one, IsExact.mul_zero, IsExact.zero_add,
    IsExact.add_zero]

theorem apply_compose (above below : Transform K) (p : Point K) :
    (above.compose below).apply p = above.apply (below.apply p) := by
  simp only [apply, compose, IsExact.row_column_add]

theorem compose_assoc (first second third : Transform K) :
    (first.compose second).compose third = first.compose (second.compose third) := by
  simp only [compose, Transform.mk.injEq]
  refine ⟨?_, ?_, ?_, ?_, ?_, ?_⟩
  iterate 4 exact IsExact.row_column ..
  iterate 2 exact IsExact.row_column_add ..

end Transform

/-- What stands in for the functions and constants that are not rational. -/
structure Approximation where
  sqrt : Rat → Rat
  hypot : Rat → Rat → Rat
  sin : Rat → Rat
  cos : Rat → Rat
  atan2 : Rat → Rat → Rat
  degree : Rat
  radian : Rat

/-- The rational numbers, with something that stands in for what is not rational. -/
def Exact (_ : Approximation) : Type := Rat

instance (approximation : Approximation) : Scalar (Exact approximation) where
  zero := (0 : Rat)
  one := (1 : Rat)
  add := Rat.add
  sub := Rat.sub
  mul := Rat.mul
  div := Rat.div
  neg := Rat.neg
  lt := Rat.instLT.lt
  le := Rat.instLE.le
  min := fun (a b : Rat) => if a ≤ b then a else b
  max := fun (a b : Rat) => if a ≤ b then b else a
  decideLt := Rat.instDecidableLt
  decideLe := Rat.instDecidableLe
  abs := Rat.abs
  sqrt := approximation.sqrt
  hypot := approximation.hypot
  sin := approximation.sin
  cos := approximation.cos
  atan2 := approximation.atan2
  truncate value := max Int64.minValue.toInt (min Int64.maxValue.toInt (value.num.tdiv value.den))
  tolerance := mkRat 1 1000000000
  degree := approximation.degree
  radian := approximation.radian

instance (approximation : Approximation) : DecidableEq (Exact approximation) := instDecidableEqRat

instance (approximation : Approximation) : Scalar.IsExact (Exact approximation) where
  add_assoc := Rat.add_assoc
  add_comm := Rat.add_comm
  zero_add := Rat.zero_add
  mul_assoc := Rat.mul_assoc
  mul_comm := Rat.mul_comm
  one_mul := Rat.one_mul
  zero_mul := Rat.zero_mul
  mul_add := Rat.mul_add

end MaskLayout
