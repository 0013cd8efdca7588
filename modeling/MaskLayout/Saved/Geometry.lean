import MaskLayout.Binary64.Scalar
import MaskLayout.Geometry.Layers
import MaskLayout.Json.Decoder
import MaskLayout.LayerMap

/-! The saved form of points, polygons, transforms and layer maps. -/
namespace MaskLayout

open Json

namespace Point

def toJson (point : Point Float) : Json :=
  .object [("x", ofFloat point.x), ("y", ofFloat point.y)]

def ofReading? (reading : Reading) : Except Defect (Point Float) := do
  let (x, y, _) ← reading.record?
    [.head "x" Reading.float?, .tail (.head "y" Reading.float?)] false (none, none, ())
  return ⟨← required x, ← required y⟩

end Point

namespace Polygon

def toJson (polygon : Polygon Float) : Json :=
  .object [("points", .array (polygon.points.map Point.toJson))]

def ofReading? (reading : Reading) : Except Defect (Polygon Float) := do
  let (points, _) ← reading.record?
    [.head "points" (Reading.list? Point.ofReading?)] false (none, ())
  return ⟨← required points⟩

end Polygon

namespace LayerGeometry

def toJson (geometry : LayerGeometry Float) : Json :=
  .object (geometry.entries.map fun (layer, polygons) =>
    (layer, .array (polygons.map Polygon.toJson)))

/-- A layer that comes twice is the last one. -/
def ofReading? (reading : Reading) : Except Defect (LayerGeometry Float) :=
  (reading.entries? (Reading.list? Polygon.ofReading?)).map .ofList

end LayerGeometry

namespace Transform

/-- Two numbers in brackets. -/
def pairToJson (x y : Float) : Json := .array [ofFloat x, ofFloat y]

def toJson (transform : Transform Float) : Json :=
  .object [
    ("a", .array [pairToJson transform.xx transform.xy, pairToJson transform.yx transform.yy]),
    ("b", pairToJson transform.dx transform.dy)]

def ofReading? (reading : Reading) : Except Defect (Transform Float) := do
  let pair := Reading.pair? Reading.float? Reading.float?
  let (rows, shift, _) ← reading.record?
    [.head "a" (Reading.pair? pair pair), .tail (.head "b" pair)] false (none, none, ())
  let ((xx, xy), (yx, yy)) ← required rows
  let (dx, dy) ← required shift
  return ⟨xx, xy, yx, yy, dx, dy⟩

end Transform

namespace LayerMap

def toJson : LayerMap → Json
  | identity => .string "Identity"
  | constant destination => .object [("Constant", ofOption destination)]
  | table entries => .object [("Table",
      .object (entries.entries.map fun (name, destination) => (name, ofOption destination)))]

def bare? : String → Option LayerMap
  | "Identity" => some identity
  | _ => none

def payload? : String → Option (Reading → Except Defect LayerMap)
  | "Identity" => some fun payload => payload.unit?.map fun _ => identity
  | "Constant" => some fun payload => (payload.option? Reading.string?).map constant
  | "Table" => some fun payload => (payload.entries? (Reading.option? Reading.string?)).map ofList
  | _ => none

def ofReading? (reading : Reading) : Except Defect LayerMap := reading.case? bare? payload?

end LayerMap

end MaskLayout
