import MaskLayout.Arena.Basic
import MaskLayout.Layout.Node

/-!
Layouts: the nodes of a design and the references that are shared between them. What is put in must
refer to what is there, and is never changed afterwards.
-/
namespace MaskLayout

structure Layout (K : Type) where
  name : String
  nodes : Arena .node (Node K)
  references : Arena .reference (Reference K)

namespace Layout

variable {K : Type}

def empty (name : String) : Layout K := ⟨name, .empty, .empty⟩

instance : Inhabited (Layout K) := ⟨empty ""⟩

def node (layout : Layout K) (key : NodeKey) : Except LayoutError (Node K) :=
  match layout.nodes.get? key with
  | some node => .ok node
  | none => .error (.staleKey .node)

def reference (layout : Layout K) (key : ReferenceKey) : Except LayoutError (Reference K) :=
  match layout.references.get? key with
  | some reference => .ok reference
  | none => .error (.staleKey .reference)

def contains (layout : Layout K) : Target → Bool
  | .node key => layout.nodes.contains key
  | .reference key => layout.references.contains key

/-- Fails for a target that is not there. -/
def require (layout : Layout K) (target : Target) : Except LayoutError Unit :=
  if layout.contains target then .ok () else .error (.staleKey target.kind)

/-- Stores the node of a draft. The targets of its children must be there. -/
def addNode (layout : Layout K) (draft : NodeDraft K) : Except LayoutError (Layout K × NodeKey) :=
  match draft.children.find? fun child => !layout.contains child.2.target with
  | some (name, _) => .error (.invalidChild name .missingTarget)
  | none =>
    let (nodes, key) := layout.nodes.insert draft.node
    .ok ({ layout with nodes }, key)

/-- Takes out a node. What refers to it stays, and fails from then on. -/
def removeNode? (layout : Layout K) (key : NodeKey) : Option (Layout K × Node K) :=
  (layout.nodes.remove? key).map fun (nodes, node) => ({ layout with nodes }, node)

/-- Stores a reference, so that others can be stacked on it. Its target must be there. -/
def addReference (layout : Layout K) (reference : Reference K) :
    Except LayoutError (Layout K × ReferenceKey) := do
  layout.require reference.target
  let (references, key) := layout.references.insert reference
  return ({ layout with references }, key)

/-- The plain reference to a node that is there. -/
def wrap [Scalar K] (layout : Layout K) (key : NodeKey) : Except LayoutError (Reference K) := do
  let _ ← layout.node key
  return .toNode key

/-- The node of a name in the first place that holds one. -/
def findNode? (layout : Layout K) (name : String) : Option (NodeKey × Node K) :=
  layout.nodes.entries.find? (·.2.name = name)

end Layout

end MaskLayout
