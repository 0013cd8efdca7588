import MaskLayout.Cif.Error
import MaskLayout.Cif.Program
import MaskLayout.Cif.Settings
import MaskLayout.Layout.Flatten

/-!
What a routine holds. A fragment is a node under the layer map that is in effect there; it gets one
routine, however often it is called. What a design is compiled from is an edge from outside: a node by
itself, or what a reference makes of one.
-/
namespace MaskLayout.Cif

structure Fragment where
  node : NodeKey
  layerMap : LayerMap
  deriving DecidableEq

/-- How a child is drawn: by a call, or by its own polygons in place. -/
inductive Edge (K : Type) where
  | call (fragment : Fragment) (transform : Transform K)
  | inline (runs : List (Run K))

/-- What a routine holds: the polygons of its node, then its children. -/
structure Body (K : Type) where
  runs : List (Run K)
  edges : List (Edge K)

def Edge.isInline {K : Type} : Edge K → Bool
  | call _ _ => false
  | inline _ => true

/-- What is compiled. -/
inductive Subject (K : Type) where
  | node (key : NodeKey)
  | reference (reference : Reference K)

/-- The name by which errors speak of the subject itself. -/
def rootName : String := "<root>"

variable {K : Type} [Scalar K]

/-- The polygons of a layer where the layer map puts them. A layer without a corner is passed over
even if the map does not know it. -/
def drawLayer (layerMap : LayerMap) (layer : String) (polygons : List (Polygon K)) :
    Except LayoutError (List (Run K)) :=
  let drawn := polygons.filter fun polygon => !polygon.isEmpty
  if drawn.isEmpty then .ok []
  else match layerMap.lookup layer with
    | .error error => .error error
    | .ok none => .ok []
    | .ok (some destination) => .ok [⟨destination, drawn⟩]

def draw (layerMap : LayerMap) (geometry : LayerGeometry K) : Except LayoutError (List (Run K)) := do
  let runs ← geometry.entries.mapM fun (layer, polygons) => drawLayer layerMap layer polygons
  return runs.flatten

/-- The edge for a reference in a routine under a layer map: a call if all that the reference stands
for is rigid, otherwise the flattened geometry, which strict settings refuse. -/
def edge (layout : Layout K) (settings : Settings K) (layerMap : LayerMap) (name : String)
    (reference : Reference K) : Except (CifError K) (Edge K) := do
  let transform ← ofLayout (layout.flatTransform reference none)
  if transform.isRigid then
    let node ← ofLayout (layout.resolve reference)
    let inner ← ofLayout (layout.flatLayerMap reference none)
    return .call ⟨node, ← ofLayout (inner.compose layerMap)⟩ transform
  else if settings.strict then
    let factors := transform.decompose
    .error (.unrepresentable name factors.scaleX factors.scaleY factors.shear)
  else
    let flattened ← ofLayout (layout.flatten reference)
    return .inline (← ofLayout (draw layerMap flattened.geometry))

def body (layout : Layout K) (settings : Settings K) (fragment : Fragment) :
    Except (CifError K) (Body K) := do
  let node ← ofLayout (layout.node fragment.node)
  let runs ← ofLayout (draw fragment.layerMap node.geometry)
  let edges ← node.children.mapM fun (name, child) =>
    edge layout settings fragment.layerMap name child
  return ⟨runs, edges⟩

/-- A subject as an edge from outside. -/
def Subject.edge (layout : Layout K) (settings : Settings K) :
    Subject K → Except (CifError K) (Edge K)
  | .node key => do
    let _ ← ofLayout (layout.node key)
    return .call ⟨key, .identity⟩ .identity
  | .reference root => Cif.edge layout settings .identity rootName root

end MaskLayout.Cif
