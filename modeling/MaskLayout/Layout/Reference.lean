import MaskLayout.Geometry.Decomposition
import MaskLayout.LayerMap

/-! References: edges to a node, or to a stored reference, under a transform and a layer map. -/
namespace MaskLayout

inductive Target where
  | node (key : NodeKey)
  | reference (key : ReferenceKey)
  deriving DecidableEq

def Target.kind : Target → Kind
  | node _ => .node
  | reference _ => .reference

structure Reference (K : Type) where
  target : Target
  transform : Transform K
  layerMap : LayerMap
  deriving DecidableEq

namespace Reference

variable {K : Type} [Scalar K]

/-- The reference that changes nothing. -/
def plain (target : Target) : Reference K := ⟨target, .identity, .identity⟩

def toNode (key : NodeKey) : Reference K := plain (.node key)

/-- A reference stacked on a stored one. -/
def stackOn (key : ReferenceKey) : Reference K := plain (.reference key)

/-- Transforms once more, after what the reference does already. -/
def thenTransform (reference : Reference K) (transform : Transform K) : Reference K :=
  { reference with transform := transform.compose reference.transform }

end Reference

end MaskLayout
