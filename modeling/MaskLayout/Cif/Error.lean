import MaskLayout.Decimal.Shortest
import MaskLayout.Layout.Error

/-! What can go wrong when a design is written as a mask file. -/
namespace MaskLayout.Cif

inductive CifError (K : Type) where
  | layout (error : LayoutError)
  /-- An edge that no call can carry, with the scale and the shear that are in the way. -/
  | unrepresentable (edge : String) (scaleX scaleY shear : K)
  /-- The text did not fit. -/
  | outOfSpace
  deriving DecidableEq, Repr

def CifError.message : CifError Float → String
  | .layout error => error.message
  | .unrepresentable edge scaleX scaleY shear =>
    s!"Transform of '{edge}' cannot be expressed as a CIF call " ++
      s!"(scale {Decimal.inMessage scaleX} x {Decimal.inMessage scaleY}, " ++
      s!"shear {Decimal.inMessage shear})"
  | .outOfSpace => "I/O error: failed to write whole buffer"

/-- Passes an error of the layout on. -/
def ofLayout {K α : Type} (result : Except LayoutError α) : Except (CifError K) α :=
  result.mapError .layout

end MaskLayout.Cif
