import MaskLayout.Scalar

/-! How a design is written as a mask file. -/
namespace MaskLayout.Cif

structure Settings (K : Type) where
  /-- Units of the file in one unit of the layout; what is left of a unit is cut off. -/
  multiplier : K
  /-- The length of the direction that stands for a rotation. -/
  rotationMultiplier : K
  /-- Whether to refuse what a call cannot carry, instead of expanding it in place. -/
  strict : Bool
  deriving DecidableEq, Repr

end MaskLayout.Cif
