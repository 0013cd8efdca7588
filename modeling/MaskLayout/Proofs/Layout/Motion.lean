import MaskLayout.Proofs.Exact
import MaskLayout.Proofs.Layout.Picture
import MaskLayout.Proofs.Layout.Stack
import MaskLayout.Proofs.Layout.Visiting

namespace MaskLayout

variable {K : Type} [Scalar K]

/-- A geometry with every corner of its polygons moved. -/
def LayerGeometry.moved (geometry : LayerGeometry K) (motion : Transform K) : LayerGeometry K :=
  geometry.map (List.map fun polygon => ⟨polygon.points.map motion.apply⟩)

def Flattened.moved (flattened : Flattened K) (motion : Transform K) : Flattened K :=
  { flattened with geometry := flattened.geometry.moved motion }

/-- A placement with a motion around it. -/
def Placement.moved (placement : Placement K) (motion : Transform K) : Placement K :=
  { placement with transform := motion.compose placement.transform }

theorem LayerGeometry.moved_eq (geometry : LayerGeometry K) (motion : Transform K) :
    geometry.moved motion = geometry.map (List.map (·.map motion)) := rfl

theorem LayerGeometry.names_moved (geometry : LayerGeometry K) (motion : Transform K) :
    (geometry.moved motion).names = geometry.names := by
  unfold moved NameTable.map NameTable.names
  rw [List.map_map]
  rfl

theorem LayerGeometry.polygons_moved (geometry : LayerGeometry K) (motion : Transform K)
    (layer : String) : (geometry.moved motion).polygons layer =
      (geometry.polygons layer).map fun polygon => ⟨polygon.points.map motion.apply⟩ := by
  unfold moved polygons
  rw [NameTable.find?_map]
  cases geometry.find? layer <;> rfl

private theorem LayerGeometry.moved_add (geometry : LayerGeometry K) (motion : Transform K)
    (layer : String)
    (polygons : List (Polygon K)) : (geometry.add layer polygons).moved motion =
      (geometry.moved motion).add layer (polygons.map (·.map motion)) := by
  rw [moved_eq, moved_eq]
  refine NameTable.map_update fun earlier => ?_
  cases earlier <;> simp

/-- Under the identity a placement shows the moved geometry as it is. -/
theorem Placement.on_drawing_identity {placement : Placement K} (kept : placement.layerMap = .identity)
    (node : Node K) (layer : String) : Drawing.on (placement.drawing node) layer =
      (node.geometry.moved placement.transform).polygons layer := by
  rw [← LayerGeometry.on_entries]
  rw [LayerGeometry.moved_eq]
  unfold drawing NameTable.map
  rw [List.flatMap_map]
  congr 2
  funext entry
  simp [shown, kept, LayerMap.lookup, Function.comp_def]

variable [Scalar.IsExact K] (motion : Transform K)

private theorem Polygon.map_compose (polygon : Polygon K) (above below : Transform K) :
    polygon.map (above.compose below) = (polygon.map below).map above := by
  simp [map, Function.comp_def, Transform.apply_compose]

namespace Placement

private theorem under_moved (inner outer : Placement K) :
    inner.under (outer.moved motion) = (inner.under outer).map (·.moved motion) := by
  unfold under moved
  cases inner.layerMap.compose outer.layerMap with
  | error error => rfl
  | ok layerMap => simp [Except.map, pure, Except.pure, Transform.compose_assoc]

private theorem deposit_moved (placement : Placement K) (node : Node K) (geometry : LayerGeometry K) :
    (placement.moved motion).deposit node (geometry.moved motion) =
      (placement.deposit node geometry).map (·.moved motion) := by
  refine foldlM_of_map (·.moved motion) (fun state entry _ => ?_) geometry
  rw [map_of_bind]
  refine bind_congr fun destination => ?_
  cases destination with
  | none => rfl
  | some destination =>
    simp [moved, Except.map, pure, Except.pure, LayerGeometry.moved_add, Polygon.map_compose,
      Function.comp_def]

end Placement

/-- The outermost transform can be composed at the end as well as at the start. -/
theorem Chain.transform_cons (reference : Reference K) (links : List (Reference K)) (node : NodeKey)
    (limit : Option Nat) : transform ⟨reference :: links, node⟩ (limit.map (· + 1)) =
      reference.transform.compose (transform ⟨links, node⟩ limit) := by
  have around (links : List (Reference K)) (start : Transform K) :
      links.foldl (fun above link => above.compose link.transform) (reference.transform.compose start) =
        reference.transform.compose
          (links.foldl (fun above link => above.compose link.transform) start) := by
    induction links generalizing start with
    | nil => rfl
    | cons link links ih => rw [List.foldl_cons, List.foldl_cons, Transform.compose_assoc, ih]
  unfold transform
  rw [outermost_cons, List.foldl_cons, ← around, Transform.identity_compose, Transform.compose_identity]

namespace Layout

variable (layout : Layout K)

private theorem placementsBelow_moved (placement : Placement K) (node : Node K) :
    layout.placementsBelow (placement.moved motion) node =
      (layout.placementsBelow placement node).map (List.map (Placement.moved · motion)) := by
  have each (child : String × Reference K) :
      (do (← layout.placement child.2).under (placement.moved motion)) =
        (do (← layout.placement child.2).under placement).map (Placement.moved · motion) := by
    rw [map_of_bind]
    exact bind_congr fun inner => inner.under_moved motion placement
  simp only [placementsBelow, each, mapM_of_map]
  rw [bind_of_map, map_of_bind]
  refine bind_congr fun reversed => ?_
  rw [← List.map_reverse]
  rfl

private theorem enter_moved (placement : Placement K) (geometry : LayerGeometry K) :
    layout.enter (placement.moved motion) (geometry.moved motion) =
      (layout.enter placement geometry).map fun (children, added) =>
        (children.map (·.moved motion), added.moved motion) := by
  simp only [enter, map_of_bind]
  refine bind_congr fun node => ?_
  rw [placement.deposit_moved, bind_of_map]
  refine bind_congr fun added => ?_
  rw [placementsBelow_moved, bind_of_map]
  rfl

/-- A visit of moved placements to a moved geometry. -/
theorem visit_moved (pending : List (Nat × Placement K)) (geometry : LayerGeometry K) :
    layout.visit (pending.map fun entry => (entry.1, entry.2.moved motion)) (geometry.moved motion) =
      (layout.visit pending geometry).map (·.moved motion) := by
  have same (placement : Placement K) : (placement.moved motion).layerMap = placement.layerMap := rfl
  induction pending, geometry using layout.visit_induction with
  | nil geometry =>
    rw [List.map_nil, visit_nil, visit_nil]
    rfl
  | skip depth placement rest geometry discards ih =>
    rw [List.map_cons, visit_skip ((same placement).trans discards), visit_skip discards, ih]
  | endless placement rest geometry kept =>
    rw [List.map_cons, visit_endless (same placement ▸ kept), visit_endless kept]
    rfl
  | enter depth placement rest geometry kept ih =>
    rw [List.map_cons, visit_enter (same placement ▸ kept), visit_enter kept, enter_moved, bind_of_map,
      map_of_bind]
    cases entered : layout.enter placement geometry with
    | error error => rfl
    | ok result =>
      obtain ⟨children, added⟩ := result
      rw [ok_bind, ok_bind, ← ih children added entered]
      simp [Function.comp_def]

/-- In exact arithmetic the transform of a reference applies after those of what it is stacked on. -/
theorem flatTransform_eq (reference : Reference K) : layout.flatTransform reference none =
    (layout.innerChain reference).map fun inner =>
      reference.transform.compose (inner.transform none) := by
  unfold flatTransform
  rw [chain_eq, bind_of_map]
  cases layout.innerChain reference with
  | error error => rfl
  | ok inner => exact congrArg Except.ok (Chain.transform_cons reference inner.links inner.node none)

theorem placement_moved (reference : Reference K) :
    layout.placement (reference.thenTransform motion) =
      (layout.placement reference).map (·.moved motion) := by
  have target : (reference.thenTransform motion).target = reference.target := rfl
  simp only [placement_eq, resolve_swap target, flatTransform_eq, innerChain_swap target,
    flatLayerMap_eq, innerLayerMap_swap target, map_of_bind, bind_of_map]
  refine bind_congr fun node => bind_congr fun inner => bind_congr fun layerMap => ?_
  unfold Reference.thenTransform
  rw [Transform.compose_assoc]
  rfl

/-- A moved reference is flattened to the same polygons, on the same layers and in the same order, each
of them moved, or it fails in the same way. -/
theorem flatten_moved (reference : Reference K) :
    layout.flatten (reference.thenTransform motion) =
      (layout.flatten reference).map (·.moved motion) := by
  unfold flatten
  rw [placement_moved, bind_of_map, map_of_bind]
  refine bind_congr fun root => ?_
  -- The empty geometry has nothing to be moved.
  have moved : layout.visit [(layout.nodes.count + 1, root.moved motion)] .empty =
      (layout.visit [(layout.nodes.count + 1, root)] .empty).map (LayerGeometry.moved · motion) :=
    layout.visit_moved motion [(layout.nodes.count + 1, root)] .empty
  rw [moved, bind_of_map, map_of_bind]
  rfl

end Layout

end MaskLayout
