import MaskLayout.Geometry.Layers
import MaskLayout.Layout.Reference

/-!
Nodes: named cells with geometry of their own and named children. A draft is a node that is being put
together; only references can become its children, under names of their own.
-/
namespace MaskLayout

structure Node (K : Type) where
  name : String
  geometry : LayerGeometry K
  children : List (String × Reference K)

namespace Node

variable {K : Type}

/-- The child of a name, the first one if there are several. -/
def child? (node : Node K) (name : String) : Option (Reference K) :=
  (node.children.find? (·.1 = name)).map (·.2)

end Node

/-- What somebody may try to make a child. -/
inductive Child (K : Type) where
  | reference (reference : Reference K)
  | node (key : NodeKey)
  | polygon (polygon : Polygon K)

structure NodeDraft (K : Type) where
  name : String
  geometry : LayerGeometry K
  children : List (String × Reference K)
  named : ∀ child ∈ children, child.1 ≠ ""
  distinct : (children.map (·.1)).Nodup

namespace NodeDraft

variable {K : Type}

def empty (name : String) : NodeDraft K := ⟨name, .empty, [], by simp, .nil⟩

def addPolygons (draft : NodeDraft K) (layer : String) (polygons : List (Polygon K)) :
    NodeDraft K :=
  { draft with geometry := draft.geometry.add layer polygons }

def addReference (draft : NodeDraft K) (name : String) (reference : Reference K) :
    Except LayoutError (NodeDraft K) :=
  if unnamed : name = "" then .error (.invalidChild name .emptyName)
  else if taken : name ∈ draft.children.map (·.1) then .error (.invalidChild name .duplicateName)
  else .ok { draft with
    children := draft.children ++ [(name, reference)]
    named := by
      intro child member
      rcases List.mem_append.mp member with earlier | last
      · exact draft.named child earlier
      · simpa [List.mem_singleton.mp last] using unnamed
    distinct := by
      rw [List.map_append, List.nodup_append]
      refine ⟨draft.distinct, by simp, ?_⟩
      rintro old member new last same
      simp only [List.map_cons, List.map_nil, List.mem_singleton] at last
      exact taken (last ▸ same ▸ member) }

def addChild (draft : NodeDraft K) (name : String) : Child K → Except LayoutError (NodeDraft K)
  | .reference reference => draft.addReference name reference
  | .node _ => .error (.bareNodeChild name)
  | .polygon _ => .error (.invalidChild name .notReference)

def node (draft : NodeDraft K) : Node K := ⟨draft.name, draft.geometry, draft.children⟩

end NodeDraft

end MaskLayout
