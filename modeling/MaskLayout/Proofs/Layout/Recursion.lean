import MaskLayout.Proofs.Layout.Descent
import MaskLayout.Proofs.Layout.Termination

/-!
Flattening is the plain recursion. The recursion follows the hierarchy: what lies below a placement is
what its node shows and then what lies below each child, in their order. The list of pending
placements, and passing over what discards every layer, change neither the geometry nor its order.
-/
namespace MaskLayout

variable {K : Type} [Scalar K]

private theorem Placement.deposit_discardAll {placement : Placement K}
    (discards : placement.layerMap = .discardAll) (node : Node K) (geometry : LayerGeometry K) :
    placement.deposit node geometry = .ok geometry := by
  unfold deposit
  rw [discards]
  generalize node.geometry.entries = entries
  induction entries with
  | nil => rfl
  | cons entry entries ih => exact ih

/-- What a node adds, layer by layer: its polygons behind those that are there. -/
theorem Placement.deposit_eq (placement : Placement K) (node : Node K) (geometry : LayerGeometry K) :
    placement.deposit node geometry = node.geometry.entries.foldlM (fun geometry (layer, polygons) => do
      match ← placement.layerMap.lookup layer with
      | none => return geometry
      | some destination =>
        let moved := polygons.map fun polygon => ⟨polygon.points.map placement.transform.apply⟩
        return geometry.insert destination ((geometry.find? destination).getD [] ++ moved)) geometry := by
  unfold deposit
  congr 1
  funext before entry
  refine bind_congr fun destination => ?_
  cases destination with
  | none => rfl
  | some destination => exact congrArg Except.ok (NameTable.update_eq_insert before destination _)

namespace Layout

private theorem enter_discardAll {layout : Layout K} {placement : Placement K}
    {geometry own : LayerGeometry K}
    {children : List (Placement K)} (discards : placement.layerMap = .discardAll)
    (entered : layout.enter placement geometry = .ok (children, own)) :
    own = geometry ∧ ∀ child ∈ children, child.layerMap = .discardAll := by
  obtain ⟨node, _, deposited, composed⟩ := enter_eq_ok_iff.mp entered
  rw [Placement.deposit_discardAll discards] at deposited
  exact ⟨(Except.ok.inj deposited).symm, placementsBelow_discardAll discards composed⟩

/-- Adds everything below a placement to a geometry: the polygons of its node, moved corner by corner and
put at the end of the layer to which the map leads, and then what lies below its children, each with its
own transform and map inside those of the placement. Nothing is passed over, so that everything below
has to be there. -/
def gather (layout : Layout K) (acyclic : layout.Acyclic) (geometry : LayerGeometry K)
    (placement : Placement K) : Except LayoutError (LayerGeometry K) :=
  match found : layout.node placement.node with
  | .error error => .error error
  | .ok node => do
    let own ← node.geometry.entries.foldlM (fun geometry (layer, polygons) => do
      match ← placement.layerMap.lookup layer with
      | none => return geometry
      | some destination =>
        let moved := polygons.map fun polygon => ⟨polygon.points.map placement.transform.apply⟩
        return geometry.insert destination ((geometry.find? destination).getD [] ++ moved)) geometry
    node.children.attach.foldlM (fun geometry child =>
      match resolved : layout.resolve child.1.2 with
      | .error error => .error error
      | .ok key => do
        have : layout.Below (.node key) (.node placement.node) :=
          below_of_resolve found child.2 resolved
        let transform ← layout.flatTransform child.1.2 none
        let layerMap ← layout.flatLayerMap child.1.2 none
        let composed ← layerMap.compose placement.layerMap
        layout.gather acyclic geometry ⟨key, placement.transform.compose transform, composed⟩) own
termination_by acyclic.wellFounded.wrap (Target.node placement.node)
decreasing_by exact this

variable {layout : Layout K} (acyclic : layout.Acyclic)

/-- The recursion without the proofs that it descends. -/
theorem gather_eq (geometry : LayerGeometry K) (placement : Placement K) :
    layout.gather acyclic geometry placement = (do
      let node ← layout.node placement.node
      let own ← placement.deposit node geometry
      node.children.foldlM (fun geometry child =>
        (do (← layout.placement child.2).under placement) >>= layout.gather acyclic geometry) own) := by
  rw [gather]
  split
  · rename_i error missing
    rw [missing, error_bind]
  · rename_i node found
    simp only [found, ok_bind, Placement.deposit_eq]
    refine bind_congr fun own => Eq.trans ?_ foldlM_attach
    congr 1
    funext geometry child
    rw [placement_eq]
    split
    · rename_i error failed
      rw [failed]
      rfl
    · rename_i key resolved
      simp [resolved, Placement.under]

/-- Where it succeeds, the recursion enters a placement and then goes through what that leaves behind. -/
theorem gather_eq_ok_iff {geometry after : LayerGeometry K} {placement : Placement K} :
    layout.gather acyclic geometry placement = .ok after ↔
      ∃ children own, layout.enter placement geometry = .ok (children, own) ∧
        children.foldlM (layout.gather acyclic) own = .ok after := by
  rw [gather_eq]
  simp only [bind_eq_ok_iff, foldlM_bind_eq_ok_iff, enter_eq_ok_iff, placementsBelow_eq_ok_iff]
  constructor
  · rintro ⟨node, found, own, deposited, children, composed, folded⟩
    exact ⟨children, own, ⟨node, found, deposited, composed⟩, folded⟩
  · rintro ⟨children, own, ⟨node, found, deposited, composed⟩, folded⟩
    exact ⟨node, found, own, deposited, children, composed, folded⟩

/-- Nothing is added below a placement that discards every layer. -/
theorem gather_discardAll {geometry after : LayerGeometry K} {placement : Placement K}
    (gathered : layout.gather acyclic geometry placement = .ok after)
    (discards : placement.layerMap = .discardAll) : after = geometry := by
  generalize start : Target.node placement.node = entry
  induction entry using acyclic.wellFounded.induction generalizing geometry after placement with
  | h entry ih =>
    obtain ⟨children, own, entered, folded⟩ := (gather_eq_ok_iff acyclic).mp gathered
    obtain ⟨same, hidden⟩ := enter_discardAll discards entered
    -- The children discard every layer as well, so that none of them adds anything.
    have kept : Outcome (· = own) (fun _ => True) (children.foldlM (layout.gather acyclic) own) := by
      refine Outcome.foldlM_keeps children (fun child member before same => ?_) rfl
      cases inside : layout.gather acyclic before child with
      | error error => trivial
      | ok next =>
        have lower := below_of_enter entered member
        exact (ih _ (start ▸ lower) inside (hidden child member) rfl).trans same
    rw [folded] at kept
    exact kept.trans same

/-- Children are visited one after the other, if each of them is visited as it is gathered. -/
theorem visit_children {depth : Nat} {children : List (Placement K)}
    (each : ∀ child ∈ children, ∀ before next, layout.gather acyclic before child = .ok next →
      ∀ rest, layout.visit ((depth, child) :: rest) before = layout.visit rest next)
    {own after : LayerGeometry K} (folded : children.foldlM (layout.gather acyclic) own = .ok after)
    (rest : List (Nat × Placement K)) :
    layout.visit (children.map (depth, ·) ++ rest) own = layout.visit rest after := by
  induction children generalizing own with
  | nil =>
    cases Except.ok.inj folded
    rfl
  | cons child children ih =>
    obtain ⟨first, others⟩ := List.forall_mem_cons.mp each
    rw [List.foldlM_cons] at folded
    obtain ⟨next, inside, later⟩ := bind_eq_ok_iff.mp folded
    rw [List.map_cons, List.cons_append, first own next inside]
    exact ih others later

/-- A placement that can be gathered is visited with what is gathered, before the rest. -/
theorem visit_gather {geometry after : LayerGeometry K} {placement : Placement K}
    (gathered : layout.gather acyclic geometry placement = .ok after) {depth : Nat}
    (roomy : Cif.Roomy layout (depth, placement)) (rest : List (Nat × Placement K)) :
    layout.visit ((depth, placement) :: rest) geometry = layout.visit rest after := by
  generalize start : Target.node placement.node = entry
  induction entry using acyclic.wellFounded.induction
    generalizing geometry after placement depth rest with
  | h entry ih =>
    by_cases discards : placement.layerMap = .discardAll
    · -- What is passed over would have added nothing.
      rw [visit_skip discards, gather_discardAll acyclic gathered discards]
    · obtain ⟨left, rfl⟩ : ∃ left, depth = left + 1 := Nat.exists_eq_succ_of_ne_zero roomy.pos.ne'
      obtain ⟨children, own, entered, folded⟩ := (gather_eq_ok_iff acyclic).mp gathered
      rw [visit_enter discards, entered, ok_bind]
      refine visit_children acyclic (fun child member before next inside rest => ?_) folded rest
      have lower := below_of_enter entered member
      exact ih _ (start ▸ lower) inside (roomy.child acyclic lower) rest rfl

/-- The recursion succeeds exactly where every layer below is known and every child can be followed. -/
theorem exists_gather_iff {geometry : LayerGeometry K} {placement : Placement K} :
    (∃ after, layout.gather acyclic geometry placement = .ok after) ↔
      Cif.Marked layout (Cif.fragmentOf placement) := by
  generalize start : Target.node placement.node = entry
  induction entry using acyclic.wellFounded.induction generalizing geometry placement with
  | h entry ih =>
    rw [Cif.marked_iff]
    simp only [gather_eq_ok_iff]
    constructor
    · rintro ⟨after, children, own, entered, folded⟩
      obtain ⟨node, found, deposited, composed⟩ := enter_eq_ok_iff.mp entered
      refine ⟨node, found, Placement.exists_deposit_iff.mp ⟨own, deposited⟩, fun child member => ?_⟩
      obtain ⟨lower, listed, reached⟩ :=
        exists_mem_of_forall₂ (Cif.reach_of_placementsBelow composed).flip member
      obtain ⟨below, visited, rfl⟩ := List.mem_map.mp listed
      obtain ⟨before, next, inside⟩ := exists_step_of_foldlM folded below visited
      exact ⟨_, reached, (ih _ (start ▸ below_of_enter entered visited) rfl).mp ⟨next, inside⟩⟩
    · rintro ⟨node, found, known, each⟩
      obtain ⟨own, deposited⟩ : ∃ own, placement.deposit node geometry = .ok own :=
        Placement.exists_deposit_iff.mpr known
      obtain ⟨children, composed⟩ := Cif.exists_placementsBelow_iff.mpr fun child member =>
        (each child member).imp fun _ both => both.1
      have entered := enter_eq_ok_iff.mpr ⟨node, found, deposited, composed⟩
      have gathered : ∀ below ∈ children, ∀ before,
          ∃ next, layout.gather acyclic before below = .ok next := by
        intro below visited before
        obtain ⟨child, member, reached⟩ := exists_mem_of_forall₂
          (Cif.reach_of_placementsBelow composed) (List.mem_map_of_mem visited)
        obtain ⟨lower, same, marked⟩ := each child member
        cases Except.ok.inj (reached.symm.trans same)
        exact (ih _ (start ▸ below_of_enter entered visited) rfl).mpr marked
      obtain ⟨after, folded⟩ := exists_foldlM gathered own
      exact ⟨after, children, own, entered, folded⟩

/-- Flattening collects exactly what the recursion gathers, on each layer in the same order, wherever
the recursion succeeds. -/
theorem flatten_eq_of_gather {reference : Reference K} {key : NodeKey} {transform : Transform K}
    {layerMap : LayerMap} {geometry : LayerGeometry K} (resolved : layout.resolve reference = .ok key)
    (moved : layout.flatTransform reference none = .ok transform)
    (mapped : layout.flatLayerMap reference none = .ok layerMap)
    (gathered : layout.gather acyclic .empty ⟨key, transform, layerMap⟩ = .ok geometry) :
    layout.flatten reference = .ok ⟨key, geometry⟩ := by
  have placed : layout.placement reference = .ok ⟨key, transform, layerMap⟩ := by
    rw [placement_eq, resolved, moved, mapped]
    rfl
  have roomy : Cif.Roomy layout (layout.nodes.count + 1, ⟨key, transform, layerMap⟩) :=
    ⟨[], .nil, by simp, by simp⟩
  rw [flatten, placed, ok_bind, visit_gather acyclic gathered roomy, visit_nil]
  rfl

/-- The cell of the drawer as it is placed on top. -/
def top : Placement Float := ⟨.ofParts 2 1, .translate 0 5, .rename "metal" "top"⟩

theorem top_gathered : ∃ geometry, drawer.gather drawer_acyclic .empty top = .ok geometry ∧
    drawer.flatten topped = .ok ⟨.ofParts 2 1, geometry⟩ := by
  have marked : Cif.Marked drawer (Cif.fragmentOf top) := Cif.marked_of_listed drawer_acyclic [
      ⟨.ofParts 2 1, .rename "metal" "top"⟩,
      ⟨.ofParts 1 1, .ofList [("fill", some "inner"), ("rim", some "top")]⟩,
      ⟨.ofParts 1 1, .ofList [("fill", some "top"), ("rim", none)]⟩,
      ⟨.ofParts 1 1, .discardAll⟩] (by decide +kernel) (by decide +kernel)
  obtain ⟨geometry, gathered⟩ :
      ∃ geometry, drawer.gather drawer_acyclic .empty top = .ok geometry :=
    (exists_gather_iff drawer_acyclic).mpr marked
  have moved : drawer.flatTransform topped none = .ok top.transform := by decide +kernel
  exact ⟨geometry, gathered, flatten_eq_of_gather drawer_acyclic rfl moved rfl gathered⟩

end Layout

end MaskLayout
