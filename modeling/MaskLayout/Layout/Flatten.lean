import MaskLayout.Layout.Chain

/-!
All geometry below a reference in one frame. The placements that are still to be visited are kept in
a list, and those of the children come before the rest, in the order of the children. A placement
that discards every layer is passed over without a look at its node.
-/
namespace MaskLayout

/-- The geometry below a reference, and the node that it leads to. -/
structure Flattened (K : Type) where
  node : NodeKey
  geometry : LayerGeometry K

namespace Placement

variable {K : Type} [Scalar K]

/-- The transformed polygons of a node, each added to the layer that its own layer goes to. -/
def deposit (placement : Placement K) (node : Node K) (geometry : LayerGeometry K) :
    Except LayoutError (LayerGeometry K) :=
  node.geometry.entries.foldlM (fun geometry (layer, polygons) => do
    match ← placement.layerMap.lookup layer with
    | some destination => return geometry.add destination (polygons.map (·.map placement.transform))
    | none => return geometry) geometry

/-- A placement seen through another one. -/
def under (inner outer : Placement K) : Except LayoutError (Placement K) := do
  return ⟨inner.node, outer.transform.compose inner.transform,
    ← inner.layerMap.compose outer.layerMap⟩

end Placement

namespace Layout

variable {K : Type} [Scalar K]

/-- The placements of a node's children. They are composed from the last child to the first, which
shows in the error when several of them fail. -/
def placementsBelow (layout : Layout K) (placement : Placement K) (node : Node K) :
    Except LayoutError (List (Placement K)) := do
  let reversed ← node.children.reverse.mapM fun (_, child) => do
    (← layout.placement child).under placement
  return reversed.reverse

/-- The placements that follow from one, none where that fails. -/
def following (layout : Layout K) (placement : Placement K) : List (Placement K) :=
  match layout.node placement.node with
  | .error _ => []
  | .ok node => (layout.placementsBelow placement node).toOption.getD []

/-- The placements from one down to a given depth, each before those that follow from it. -/
def unfold (layout : Layout K) : Nat → Placement K → List (Placement K)
  | 0, placement => [placement]
  | depth + 1, placement => placement :: (layout.following placement).flatMap (layout.unfold depth)

theorem unfold_length_pos (layout : Layout K) (depth : Nat) (placement : Placement K) :
    0 < (layout.unfold depth placement).length := by
  cases depth with
  | zero => exact Nat.one_pos
  | succ depth => exact Nat.succ_pos _

/-- Visits pending placements, each with the depth that is left to it. -/
def visit (layout : Layout K) (pending : List (Nat × Placement K)) (geometry : LayerGeometry K) :
    Except LayoutError (LayerGeometry K) :=
  match pending with
  | [] => .ok geometry
  | (depth, placement) :: rest =>
    if placement.layerMap = .discardAll then layout.visit rest geometry
    else match depth with
      | 0 => .error .endless
      | depth + 1 =>
        match found : layout.node placement.node with
        | .error error => .error error
        | .ok node =>
          match placement.deposit node geometry with
          | .error error => .error error
          | .ok geometry =>
            match below : layout.placementsBelow placement node with
            | .error error => .error error
            | .ok children =>
              have : layout.following placement = children := by
                simp [following, found, below, Except.toOption]
              layout.visit (children.map (depth, ·) ++ rest) geometry
termination_by (pending.flatMap fun entry => layout.unfold entry.1 entry.2).length
decreasing_by
  · simpa using layout.unfold_length_pos depth placement
  · simp_all [unfold, List.flatMap_map]

/-- Everything below a reference. A path that does not pass a node twice is followed to its end. -/
def flatten (layout : Layout K) (reference : Reference K) :
    Except LayoutError (Flattened K) := do
  let root ← layout.placement reference
  return ⟨root.node, ← layout.visit [(layout.nodes.count + 1, root)] .empty⟩

/-- The box around everything below a reference. -/
def box (layout : Layout K) (reference : Reference K) : Except LayoutError (Box K) := do
  match (← layout.flatten reference).geometry.box? with
  | some box => return box
  | none => .error .emptyGeometry

end Layout

end MaskLayout
