import MaskLayout.Scalar

/-! Points of the plane. -/
namespace MaskLayout

structure Point (K : Type) where
  x : K
  y : K
  deriving DecidableEq, Repr

variable {K : Type} [Scalar K]

def Point.distance (p q : Point K) : K :=
  Scalar.sqrt (Scalar.square (p.x - q.x) + Scalar.square (p.y - q.y))

end MaskLayout
