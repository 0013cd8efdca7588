import MaskLayout.Geometry.Point

/-!
Affine transforms. A transform sends `(x, y)` to `(xx * x + xy * y + dx, yx * x + yy * y + dy)`:
a linear part, given by rows, and a shift.
-/
namespace MaskLayout

structure Transform (K : Type) where
  xx : K
  xy : K
  yx : K
  yy : K
  dx : K
  dy : K
  deriving DecidableEq, Repr

namespace Transform

variable {K : Type} [Scalar K]

def linear (xx xy yx yy : K) : Transform K := ⟨xx, xy, yx, yy, 0, 0⟩

def identity : Transform K := linear 1 0 0 1

instance : Inhabited (Transform K) := ⟨identity⟩

def translate (dx dy : K) : Transform K := { (identity : Transform K) with dx, dy }

/-- Counter-clockwise rotation about the origin. -/
def rotateRadians (angle : K) : Transform K :=
  linear (Scalar.cos angle) (-Scalar.sin angle) (Scalar.sin angle) (Scalar.cos angle)

def rotate (degrees : K) : Transform K := rotateRadians (Scalar.toRadians degrees)

def scale (sx sy : K) : Transform K := linear sx 0 0 sy

def scaleUniform (factor : K) : Transform K := scale factor factor

/-- The mirror that keeps the x axis. -/
def flipX : Transform K := scale 1 (-1)

/-- The mirror that keeps the y axis. -/
def flipY : Transform K := scale (-1) 1

/-- The horizontal shear `x + k * y`. -/
def shear (k : K) : Transform K := linear 1 k 0 1

/-- The transform that applies `below` first and then `above`. -/
def compose (above below : Transform K) : Transform K where
  xx := above.xx * below.xx + above.xy * below.yx
  xy := above.xx * below.xy + above.xy * below.yy
  yx := above.yx * below.xx + above.yy * below.yx
  yy := above.yx * below.xy + above.yy * below.yy
  dx := above.xx * below.dx + above.xy * below.dy + above.dx
  dy := above.yx * below.dx + above.yy * below.dy + above.dy

instance : Mul (Transform K) := ⟨compose⟩

/-- Composition in order of application. -/
def andThen (below above : Transform K) : Transform K := above.compose below

def apply (transform : Transform K) (p : Point K) : Point K where
  x := transform.xx * p.x + transform.xy * p.y + transform.dx
  y := transform.yx * p.x + transform.yy * p.y + transform.dy

/-- The rows of the homogeneous three by three matrix. -/
def rows (transform : Transform K) : List (List K) :=
  [[transform.xx, transform.xy, transform.dx], [transform.yx, transform.yy, transform.dy], [0, 0, 1]]

def determinant (transform : Transform K) : K :=
  transform.xx * transform.yy - transform.xy * transform.yx

/-- The image of the origin. -/
def shift (transform : Transform K) : Point K := ⟨transform.dx, transform.dy⟩

def doesTranslate (transform : Transform K) : Bool :=
  Scalar.visible transform.dx || Scalar.visible transform.dy

def doesFlip (transform : Transform K) : Bool := transform.determinant < 0

end Transform

end MaskLayout
