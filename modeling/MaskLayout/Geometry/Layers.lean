import MaskLayout.Geometry.Polygon
import MaskLayout.NameTable

/-! Polygons by layer, the layers in order of their names. -/
namespace MaskLayout

abbrev LayerGeometry (K : Type) := NameTable (List (Polygon K))

namespace LayerGeometry

variable {K : Type}

/-- The polygons of a layer; a layer that is not there has none. -/
def polygons (geometry : LayerGeometry K) (layer : String) : List (Polygon K) :=
  (geometry.find? layer).getD []

/-- Adds polygons at the end of a layer, which is made if need be. -/
def add (geometry : LayerGeometry K) (layer : String) (polygons : List (Polygon K)) :
    LayerGeometry K :=
  geometry.update layer fun earlier => earlier.getD [] ++ polygons

def polygonCount (geometry : LayerGeometry K) : Nat := geometry.values.flatten.length

/-- All corners, by layer and polygon. -/
def points (geometry : LayerGeometry K) : List (Point K) :=
  geometry.values.flatMap fun polygons => polygons.flatMap (·.points)

def box? [Scalar K] (geometry : LayerGeometry K) : Option (Box K) := Box.ofPoints? geometry.points

end LayerGeometry

end MaskLayout
