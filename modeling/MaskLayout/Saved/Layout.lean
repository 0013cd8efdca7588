import MaskLayout.Layout.Validation
import MaskLayout.Saved.Arena
import MaskLayout.Saved.Geometry

/-! The saved form of layouts. What is loaded is checked before anything is done with it. -/
namespace MaskLayout

open Json

namespace Target

def toJson : Target → Json
  | node key => .object [("Node", key.toJson)]
  | reference key => .object [("Reference", key.toJson)]

def payload? : String → Option (Reading → Except Defect Target)
  | "Node" => some fun payload => (Key.ofReading? payload).map node
  | "Reference" => some fun payload => (Key.ofReading? payload).map reference
  | _ => none

def ofReading? (reading : Reading) : Except Defect Target := reading.case? (fun _ => none) payload?

end Target

namespace Reference

def toJson (reference : Reference Float) : Json :=
  .object [
    ("target", reference.target.toJson),
    ("transform", reference.transform.toJson),
    ("layer_map", reference.layerMap.toJson)]

def ofReading? (reading : Reading) : Except Defect (Reference Float) := do
  let (target, transform, layerMap, _) ← reading.record?
    [.head "target" Target.ofReading?,
      .tail (.head "transform" Transform.ofReading?),
      .tail (.tail (.head "layer_map" LayerMap.ofReading?))] false (none, none, none, ())
  return ⟨← required target, ← required transform, ← required layerMap⟩

end Reference

namespace Node

def toJson (node : Node Float) : Json :=
  .object [
    ("name", .string node.name),
    ("geometry", node.geometry.toJson),
    ("children", .array (node.children.map fun (name, child) =>
      .array [.string name, child.toJson]))]

/-- The names of the children may be anything here. -/
def ofReading? (reading : Reading) : Except Defect (Node Float) := do
  let (name, geometry, children, _) ← reading.record?
    [.head "name" Reading.string?,
      .tail (.head "geometry" LayerGeometry.ofReading?),
      .tail (.tail (.head "children"
        (Reading.list? (Reading.pair? Reading.string? Reference.ofReading?))))] false
    (none, none, none, ())
  return ⟨← required name, ← required geometry, ← required children⟩

end Node

/-- Why a text cannot be loaded. -/
inductive LoadError where
  | defect (defect : Defect)
  | layout (error : LayoutError)
  deriving DecidableEq, Repr

namespace Layout

def toJson (layout : Layout Float) : Json :=
  .object [
    ("name", .string layout.name),
    ("nodes", layout.nodes.toJson Node.toJson),
    ("references", layout.references.toJson Reference.toJson)]

def ofReading? (reading : Reading) : Except Defect (Layout Float) := do
  let (name, nodes, references, _) ← reading.record?
    [.head "name" Reading.string?,
      .tail (.head "nodes" (Arena.ofReading? Node.ofReading?)),
      .tail (.tail (.head "references" (Arena.ofReading? Reference.ofReading?)))] false
    (none, none, none, ())
  return ⟨← required name, ← required nodes, ← required references⟩

def save (layout : Layout Float) : String := layout.toJson.pretty

def load (text : String) : Except LoadError (Layout Float) :=
  match decode ofReading? text with
  | .error defect => .error (.defect defect)
  | .ok layout => match layout.validate with
    | .error error => .error (.layout error)
    | .ok () => .ok layout

end Layout

end MaskLayout
