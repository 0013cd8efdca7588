import MaskLayout.Proofs.Cif.Drawing
import MaskLayout.Proofs.Cif.Outline
import MaskLayout.Proofs.Layout.Motion

/-!
Polygons that are expanded in place and called afterwards. A routine holds them as they are flattened,
and the calls around it move them; in exact arithmetic they end where they are if the motion of the
calls is put on top of the reference before it is flattened.
-/
namespace MaskLayout.Cif

variable {K : Type} [Scalar K]

/-- A run with all its polygons moved. -/
def Run.moved (run : Run K) (motion : Transform K) : Run K :=
  { run with polygons := run.polygons.map (·.map motion) }

private theorem drawLayer_moved (layerMap : LayerMap) (motion : Transform K) (layer : String)
    (polygons : List (Polygon K)) : drawLayer layerMap layer (polygons.map (·.map motion)) =
      (drawLayer layerMap layer polygons).map (List.map (Run.moved · motion)) := by
  have same : ((polygons.map (·.map motion)).filter fun polygon => !polygon.isEmpty) =
      (polygons.filter fun polygon => !polygon.isEmpty).map (·.map motion) := by
    rw [List.filter_map]
    congr 2
    funext polygon
    rw [Function.comp_apply, isEmpty_map]
  unfold drawLayer
  rw [same]
  simp only [List.isEmpty_map]
  split
  · rfl
  · cases layerMap.lookup layer with
    | error error => rfl
    | ok destination => cases destination <;> rfl

private theorem draw_moved (layerMap : LayerMap) (motion : Transform K) (geometry : LayerGeometry K) :
    draw layerMap (geometry.moved motion) =
      (draw layerMap geometry).map (List.map (Run.moved · motion)) := by
  have each (entry : String × List (Polygon K)) :
      drawLayer layerMap entry.1 (entry.2.map (·.map motion)) =
        (drawLayer layerMap entry.1 entry.2).map (List.map (Run.moved · motion)) :=
    drawLayer_moved layerMap motion entry.1 entry.2
  simp only [draw, LayerGeometry.moved_eq, NameTable.map, List.mapM_map, Function.comp_def, each,
    mapM_of_map]
  rw [bind_of_map, map_of_bind]
  refine bind_congr fun runs => ?_
  rw [← List.map_flatten]
  rfl

variable [Scalar.IsExact K]

private theorem Run.drawing_moved (motion : Transform K) (run : Run K) :
    (run.moved motion).drawing .identity = run.drawing motion := by
  simp [drawing, moved, Polygon.map, Function.comp_def]

/-- What is flattened and then moved is drawn as it is seen below a placement with this motion around
it, and with no layer map. -/
theorem on_runs_of_flatten {layout : Layout K} {reference : Reference K} {flattened : Flattened K}
    {runs : List (Run K)} (flattens : layout.flatten reference = .ok flattened)
    (drawn : draw .identity flattened.geometry = .ok runs) {outer : Placement K}
    (kept : outer.layerMap = .identity) :
    ∃ below drawing, layout.placement reference >>= (·.under outer) = .ok below ∧
      layout.Shows [below] drawing ∧ ∀ layer,
        Drawing.on (runs.flatMap (Run.drawing outer.transform)) layer =
          (Drawing.on drawing layer).filter fun polygon => !polygon.isEmpty := by
  have moved : layout.flatten (reference.thenTransform outer.transform) =
      .ok (flattened.moved outer.transform) := by
    rw [layout.flatten_moved, flattens]
    rfl
  obtain ⟨below, drawing, placed, shows, collected⟩ := Layout.flatten_eq_ok moved
  refine ⟨below, drawing, ?_, shows, fun layer => ?_⟩
  · rw [layout.placement_moved] at placed
    obtain ⟨inner, found, rfl⟩ := map_eq_ok_iff.mp placed
    rw [found, ok_bind, Placement.under_eq_ok_iff, kept]
    exact ⟨rfl, rfl, LayerMap.compose_identity inner.layerMap⟩
  · -- The flattened geometry is drawn as that of a node without children is shown.
    let flat : Node K := ⟨"", flattened.geometry, []⟩
    have shown : runs.flatMap (Run.drawing outer.transform) = Drawing.visible (outer.drawing flat) :=
      draw_eq_ok outer (kept ▸ drawn)
    rw [← collected, shown, Drawing.on_visible, Placement.on_drawing_identity kept]
    rfl

/-- Moving a reference moves what it is flattened to, corner by corner on every layer, and keeps its
node, its layers and its errors. Hence what is expanded in place ends where flattening puts it. Called
under a transform it draws what the reference that is moved by this transform is flattened to; and with
no layer map around it draws what is seen below the placement from which it is called. -/
theorem motion_carries (layout : Layout K) (reference : Reference K) :
    (∀ motion, layout.flatten (reference.thenTransform motion) =
      (layout.flatten reference).map (·.moved motion)) ∧
    (∀ motion flattened, layout.flatten reference = .ok flattened → ∃ moved,
      layout.flatten (reference.thenTransform motion) = .ok moved ∧ moved.node = flattened.node ∧
      moved.geometry.names = flattened.geometry.names ∧
      ∀ layer, moved.geometry.polygons layer =
        (flattened.geometry.polygons layer).map fun polygon => ⟨polygon.points.map motion.apply⟩) ∧
    ∀ (settings : Settings K) (outer : Placement K) (name : String) (runs : List (Run K)),
      edge layout settings outer.layerMap name reference = .ok (.inline runs) →
      (∃ flattened placed, layout.flatten (reference.thenTransform outer.transform) = .ok flattened ∧
        draw outer.layerMap flattened.geometry = .ok placed ∧
        placed.flatMap (Run.drawing .identity) = runs.flatMap (Run.drawing outer.transform)) ∧
      (outer.layerMap = .identity → ∃ below drawing,
        layout.placement reference >>= (·.under outer) = .ok below ∧ layout.Shows [below] drawing ∧
        ∀ layer, Drawing.on (runs.flatMap (Run.drawing outer.transform)) layer =
          (Drawing.on drawing layer).filter fun polygon => !polygon.isEmpty) := by
  have everywhere (motion : Transform K) := layout.flatten_moved motion reference
  refine ⟨everywhere, fun motion flattened flattens => ?_, fun settings outer name runs made => ?_⟩
  · rw [everywhere, flattens]
    exact ⟨flattened.moved motion, rfl, rfl, flattened.geometry.names_moved motion,
      flattened.geometry.polygons_moved motion⟩
  · rcases edge_cases made with ⟨_, _, _, same, _⟩ | ⟨_, _, flattened, same, _, _, _, flattens, drawn⟩
    · cases same
    · cases same
      refine ⟨⟨flattened.moved outer.transform, runs.map (Run.moved · outer.transform), ?_, ?_, ?_⟩,
        fun kept => on_runs_of_flatten flattens (kept ▸ drawn) kept⟩
      · rw [layout.flatten_moved, flattens]
        rfl
      · rw [Flattened.moved, draw_moved, drawn]
        rfl
      · simp only [List.flatMap_map, Run.drawing_moved]

/-- Right along the axis on which the yard is stretched. -/
def axial : Approximation where
  sqrt value := value
  hypot x y := x.abs + y.abs
  sin _ := 0
  cos _ := 1
  atan2 _ _ := 0
  degree := mkRat 71 4068
  radian := mkRat 4068 71

/-- A pad, a cell that has it sheared and on another layer, and a shared reference that stretches the
cell. -/
def yard : Layout (Exact axial) where
  name := "yard"
  nodes := .ofSlots [
    .fresh ⟨"pad", LayerGeometry.add .empty "metal" [⟨[⟨0, 0⟩, ⟨1, 0⟩, ⟨1, 1⟩]⟩], []⟩,
    .fresh ⟨"cell", LayerGeometry.add .empty "metal" [⟨[⟨1, 1⟩, ⟨0, 1⟩, ⟨0, 0⟩]⟩], [
      ("plain", .toNode (.ofParts 1 1)),
      ("slanted", ⟨.node (.ofParts 1 1), .shear 1, .rename "metal" "poly"⟩)]⟩]
  references := .ofSlots [.fresh ⟨.node (.ofParts 2 1), .scale (1 + 1) (1 + 1), .identity⟩]

/-- The stretched cell, pushed along the axis. -/
def stretched : Reference (Exact axial) := ⟨.reference (.ofParts 1 1), .translate 1 0, .identity⟩

/-- A quarter turn, which does not commute with the push. -/
def turn : Transform (Exact axial) := .linear 0 (-1) 1 0

theorem stretched_carried : ∃ flattened runs placed drawing,
    yard.flatten stretched = .ok flattened ∧
      yard.flatten (stretched.thenTransform turn) = .ok (flattened.moved turn) ∧
      (∀ layer, (flattened.moved turn).geometry.polygons layer =
        (flattened.geometry.polygons layer).map fun polygon => ⟨polygon.points.map turn.apply⟩) ∧
      flattened.geometry.polygons "poly" =
        [⟨[⟨1, 0⟩, ⟨1 + 1 + 1, 0⟩, ⟨1 + 1 + 1 + 1 + 1, 1 + 1⟩]⟩] ∧
      (flattened.moved turn).geometry.polygons "poly" =
        [⟨[⟨0, 1⟩, ⟨0, 1 + 1 + 1⟩, ⟨-(1 + 1), 1 + 1 + 1 + 1 + 1⟩]⟩] ∧
      edge yard ⟨1, 1, false⟩ .identity "cell" stretched = .ok (.inline runs) ∧
      draw .identity (flattened.moved turn).geometry = .ok placed ∧
      placed.flatMap (Run.drawing .identity) = runs.flatMap (Run.drawing turn) ∧
      ∀ layer, Drawing.on (runs.flatMap (Run.drawing turn)) layer =
        (Drawing.on drawing layer).filter fun polygon => !polygon.isEmpty := by
  obtain ⟨everywhere, corners, around⟩ := motion_carries yard stretched
  have expanded : (edge yard ⟨1, 1, false⟩ .identity "cell" stretched).map Edge.isInline = .ok true := by
    decide +kernel
  have listed : (yard.flatten stretched).map (·.geometry.polygons "poly") =
      .ok [⟨[⟨1, 0⟩, ⟨1 + 1 + 1, 0⟩, ⟨1 + 1 + 1 + 1 + 1, 1 + 1⟩]⟩] := by
    decide +kernel
  obtain ⟨result, made, inline⟩ := map_eq_ok_iff.mp expanded
  cases result with
  | call fragment transform => cases inline
  | inline runs =>
    obtain ⟨⟨flattened, placed, flattens, drawn, same⟩, seen⟩ :=
      around _ ⟨.ofParts 2 1, turn, .identity⟩ _ _ made
    obtain ⟨_, drawing, _, _, shown⟩ := seen rfl
    have moved := everywhere turn
    rw [flattens] at moved
    obtain ⟨original, whole, rfl⟩ := map_eq_ok_iff.mp moved.symm
    obtain ⟨_, again, _, _, pointwise⟩ := corners turn original whole
    cases Except.ok.inj (flattens.symm.trans again)
    obtain ⟨other, found, poly⟩ := map_eq_ok_iff.mp listed
    cases Except.ok.inj (whole.symm.trans found)
    refine ⟨original, runs, placed, drawing, whole, flattens, pointwise, poly, ?_, made, drawn, same,
      shown⟩
    rw [pointwise, poly]
    decide +kernel

end MaskLayout.Cif
