import MaskLayout.Layout.Basic

/-!
Chains of stacked references. A reference stands for all references from itself down to a node:
their transforms apply innermost first, and so do their layer maps.
-/
namespace MaskLayout

/-- The references down to a node, the outermost one first. -/
structure Chain (K : Type) where
  links : List (Reference K)
  node : NodeKey

namespace Chain

variable {K : Type} [Scalar K]

/-- The outermost links, all of them without a limit. -/
def outermost (chain : Chain K) (limit : Option Nat) : List (Reference K) :=
  match limit with
  | some limit => chain.links.take limit
  | none => chain.links

def transform (chain : Chain K) (limit : Option Nat) : Transform K :=
  (chain.outermost limit).foldl (fun above link => above.compose link.transform) .identity

def layerMap (chain : Chain K) (limit : Option Nat) : Except LayoutError LayerMap :=
  (chain.outermost limit).reverse.foldlM (fun below link => below.compose link.layerMap) .identity

end Chain

/-- A reference as the node it leads to, with everything on the way composed. -/
structure Placement (K : Type) where
  node : NodeKey
  transform : Transform K
  layerMap : LayerMap

namespace Layout

variable {K : Type}

/-- Follows targets until a node is reached, through at most so many stored references. -/
def follow (layout : Layout K) (allowance : Nat) (reference : Reference K) :
    Except LayoutError (Chain K) :=
  match reference.target with
  | .node key => .ok ⟨[reference], key⟩
  | .reference key =>
    match layout.reference key with
    | .error error => .error error
    | .ok inner =>
      match allowance with
      | 0 => .error .endless
      | allowance + 1 =>
        match layout.follow allowance inner with
        | .error error => .error error
        | .ok chain => .ok ⟨reference :: chain.links, chain.node⟩

/-- The chain of a reference. One that does not pass a stored reference twice is found. -/
def chain (layout : Layout K) (reference : Reference K) : Except LayoutError (Chain K) :=
  layout.follow layout.references.count reference

/-- How many references are stacked, this one included. -/
def depth (layout : Layout K) (reference : Reference K) : Except LayoutError Nat := do
  return (← layout.chain reference).links.length

/-- The node that a reference leads to. -/
def resolve (layout : Layout K) (reference : Reference K) : Except LayoutError NodeKey := do
  return (← layout.chain reference).node

/-- The target below so many references, counted from one. -/
def targetAt (layout : Layout K) (reference : Reference K) (depth : Nat) :
    Except LayoutError Target := do
  let chain ← layout.chain reference
  match depth with
  | 0 => .error (.invalidDepth 0 chain.links.length)
  | before + 1 =>
    match chain.links[before]? with
    | some link => return link.target
    | none => .error (.invalidDepth depth chain.links.length)

variable [Scalar K]

def flatTransform (layout : Layout K) (reference : Reference K) (limit : Option Nat) :
    Except LayoutError (Transform K) := do
  return (← layout.chain reference).transform limit

def flatLayerMap (layout : Layout K) (reference : Reference K) (limit : Option Nat) :
    Except LayoutError LayerMap := do
  (← layout.chain reference).layerMap limit

def placement (layout : Layout K) (reference : Reference K) :
    Except LayoutError (Placement K) := do
  let chain ← layout.chain reference
  return ⟨chain.node, chain.transform none, ← chain.layerMap none⟩

/-- The children of the node that a reference leads to, as they are seen through the reference. -/
def children (layout : Layout K) (reference : Reference K) :
    Except LayoutError (List (String × Reference K)) := do
  let placement ← layout.placement reference
  let node ← layout.node placement.node
  node.children.mapM fun (name, child) => do
    let layerMap ← child.layerMap.compose placement.layerMap
    return (name, ⟨child.target, placement.transform.compose child.transform, layerMap⟩)

/-- The same reference to another target. A stacked reference has no such copy. -/
def copyTo (layout : Layout K) (reference : Reference K) (target : Target) :
    Except LayoutError (Reference K) := do
  let depth ← layout.depth reference
  if 1 < depth then .error (.copyStacked depth)
  else
    layout.require target
    return { reference with target }

def copy (layout : Layout K) (reference : Reference K) : Except LayoutError (Reference K) :=
  layout.copyTo reference reference.target

end Layout

end MaskLayout
