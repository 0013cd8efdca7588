import MaskLayout.Geometry.Box
import MaskLayout.Geometry.Transform

/-! Closed polygons; the edge from the last corner back to the first is implied. -/
namespace MaskLayout

structure Polygon (K : Type) where
  points : List (Point K)
  deriving DecidableEq, Repr

namespace Polygon

variable {K : Type} [Scalar K]

/-- The rectangle between two opposite corners, counter-clockwise from the lower left. -/
def rectangle (p q : Point K) : Polygon K :=
  let left := min p.x q.x
  let right := max p.x q.x
  let bottom := min p.y q.y
  let top := max p.y q.y
  ⟨[⟨left, bottom⟩, ⟨right, bottom⟩, ⟨right, top⟩, ⟨left, top⟩]⟩

def box? (polygon : Polygon K) : Option (Box K) := Box.ofPoints? polygon.points

def map (polygon : Polygon K) (transform : Transform K) : Polygon K :=
  ⟨polygon.points.map transform.apply⟩

omit [Scalar K] in
/-- A polygon without corners covers nothing and is never written. -/
def isEmpty (polygon : Polygon K) : Bool := polygon.points.isEmpty

end Polygon

end MaskLayout
