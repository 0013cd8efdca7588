import MaskLayout.Geometry.Transform

/-!
The linear part of a transform as a rotation after a shear after a scaling. A transform is rigid when
the scaling is one of mirrors only and there is no shear: those are the transforms that a call in a
mask file can carry.
-/
namespace MaskLayout

/-- The factors of `rotation (angle) * shear (shear) * scale (scaleX, scaleY)`. -/
structure Decomposition (K : Type) where
  angle : K
  scaleX : K
  scaleY : K
  shear : K
  deriving DecidableEq, Repr

namespace Transform

variable {K : Type} [Scalar K]

/-- The first column gives angle and horizontal scale, the second column seen from there the rest.
When the first column vanishes there is no angle, and the second column is reported as it is. -/
def decompose (transform : Transform K) : Decomposition K :=
  let scaleX := Scalar.hypot transform.xx transform.yx
  if scaleX < Scalar.tolerance then ⟨0, scaleX, transform.yy, transform.xy⟩
  else
    let angle := Scalar.atan2 transform.yx transform.xx
    let sin := Scalar.sin angle
    let cos := Scalar.cos angle
    let along := transform.xy * cos + transform.yy * sin
    let scaleY := transform.yy * cos - transform.xy * sin
    ⟨angle, scaleX, scaleY,
      if Scalar.abs scaleY < Scalar.tolerance then along else along / scaleY⟩

/-- The angle of the rotation in radians. -/
def rotation (transform : Transform K) : K := transform.decompose.angle

def rotationDegrees (transform : Transform K) : K := Scalar.toDegrees transform.rotation

/-- The scale along each axis; the vertical one is negative for a mirror image. -/
def scaleFactors (transform : Transform K) : K × K :=
  (transform.decompose.scaleX, transform.decompose.scaleY)

def shearFactor (transform : Transform K) : K := transform.decompose.shear

def doesRotate (transform : Transform K) : Bool := Scalar.visible transform.rotation

def doesScale (transform : Transform K) : Bool :=
  Scalar.visible (transform.decompose.scaleX - 1) ||
    Scalar.visible (Scalar.abs transform.decompose.scaleY - 1)

def doesShear (transform : Transform K) : Bool := Scalar.visible transform.shearFactor

/-- Nothing is seen of a scale or a shear. -/
def isRigid (transform : Transform K) : Bool := !transform.doesScale && !transform.doesShear

end Transform

end MaskLayout
