import MaskLayout.Geometry.Point

/-!
Boxes parallel to the axes. A box is whatever its two corners say: nothing keeps the lower one below
the upper one.
-/
namespace MaskLayout

structure Box (K : Type) where
  lower : Point K
  upper : Point K
  deriving DecidableEq, Repr

namespace Box

variable {K : Type} [Scalar K]

def ofPoint (point : Point K) : Box K := ⟨point, point⟩

/-- The box stretched to a further point. -/
def cover (box : Box K) (point : Point K) : Box K where
  lower := ⟨min box.lower.x point.x, min box.lower.y point.y⟩
  upper := ⟨max box.upper.x point.x, max box.upper.y point.y⟩

/-- The box around the points, starting from the first; no points have no box. -/
def ofPoints? : List (Point K) → Option (Box K)
  | [] => none
  | first :: rest => some (rest.foldl cover (ofPoint first))

def width (box : Box K) : K := box.upper.x - box.lower.x

def height (box : Box K) : K := box.upper.y - box.lower.y

/-- Boxes that share only a border meet as well. -/
def meets (a b : Box K) : Bool :=
  a.lower.x ≤ b.upper.x && b.lower.x ≤ a.upper.x && a.lower.y ≤ b.upper.y && b.lower.y ≤ a.upper.y

def union (a b : Box K) : Box K where
  lower := ⟨min a.lower.x b.lower.x, min a.lower.y b.lower.y⟩
  upper := ⟨max a.upper.x b.upper.x, max a.upper.y b.upper.y⟩

end Box

end MaskLayout
