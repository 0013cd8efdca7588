import MaskLayout.Layout.Flatten
import MaskLayout.Proofs.LayerMap
import MaskLayout.Proofs.Layout.Hierarchy

namespace MaskLayout

variable {K : Type}

/-- Polygons in the order in which they are drawn, each with its layer. -/
abbrev Drawing (K : Type) := List (String × Polygon K)

namespace Drawing

/-- The polygons on one layer. -/
def on (drawing : Drawing K) (layer : String) : List (Polygon K) :=
  (drawing.filter fun entry => entry.1 = layer).map (·.2)

/-- The polygons that have corners. -/
def visible (drawing : Drawing K) : Drawing K := drawing.filter fun entry => !entry.2.isEmpty

@[simp] theorem on_nil (layer : String) : on ([] : Drawing K) layer = [] := rfl

@[simp] theorem visible_nil : visible ([] : Drawing K) = [] := rfl

theorem on_append (first second : Drawing K) (layer : String) :
    on (first ++ second) layer = on first layer ++ on second layer := by
  simp [on]

theorem length_on (drawing : Drawing K) (layer : String) :
    (on drawing layer).length = (drawing.map (·.1)).count layer := by
  rw [on, List.length_map, List.count_eq_countP, List.countP_map, List.countP_eq_length_filter]
  rfl

theorem visible_append (first second : Drawing K) :
    visible (first ++ second) = visible first ++ visible second :=
  List.filter_append first second

theorem on_visible (drawing : Drawing K) (layer : String) :
    on (visible drawing) layer = (on drawing layer).filter fun polygon => !polygon.isEmpty := by
  unfold on visible
  rw [List.filter_map, List.filter_filter, List.filter_filter]
  congr 2
  funext entry
  exact Bool.and_comm _ _

private theorem on_map (layer destination : String) (polygons : List (Polygon K)) :
    on (polygons.map (destination, ·)) layer = if layer = destination then polygons else [] := by
  unfold on
  rw [List.filter_map, List.map_map]
  by_cases same : layer = destination
  · simp [same, Function.comp_def]
  · simp [same, Ne.symm same, Function.comp_def]

end Drawing

private theorem LayerGeometry.polygons_add (geometry : LayerGeometry K) (destination layer : String)
    (polygons : List (Polygon K)) :
    (geometry.add destination polygons).polygons layer =
      geometry.polygons layer ++ Drawing.on (polygons.map (destination, ·)) layer := by
  rw [Drawing.on_map]
  unfold LayerGeometry.polygons LayerGeometry.add
  rw [NameTable.find?_update]
  split
  · rename_i same
    rw [same]
    rfl
  · rw [List.append_nil]

/-- A geometry drawn layer by layer has on each layer the polygons that it holds there. -/
theorem LayerGeometry.on_entries (geometry : LayerGeometry K) (layer : String) :
    Drawing.on (geometry.entries.flatMap fun entry => entry.2.map (entry.1, ·)) layer =
      geometry.polygons layer := by
  obtain ⟨entries, sorted⟩ := geometry
  unfold polygons NameTable.find?
  simp only
  induction entries with
  | nil => rfl
  | cons entry rest ih =>
    obtain ⟨below, tail⟩ := List.pairwise_cons.mp sorted
    rw [List.flatMap_cons, Drawing.on_append, Drawing.on_map, ih tail]
    by_cases same : layer = entry.1
    · have absent : rest.find? (·.1 = layer) = none := NameTable.find?_eq_none_of_lt (same ▸ below)
      rw [absent]
      simp [same]
    · simp [same, Ne.symm same]

variable [Scalar K]

namespace Placement

/-- The polygons of one layer as they are shown where they are placed. -/
def shown (placement : Placement K) (entry : String × List (Polygon K)) : Drawing K :=
  match placement.layerMap.lookup entry.1 with
  | .ok (some destination) => entry.2.map fun polygon => (destination, polygon.map placement.transform)
  | _ => []

def drawing (placement : Placement K) (node : Node K) : Drawing K :=
  node.geometry.entries.flatMap placement.shown

theorem drawing_discardAll {placement : Placement K} (discards : placement.layerMap = .discardAll)
    (node : Node K) : placement.drawing node = [] := by
  unfold drawing
  rw [List.flatMap_eq_nil_iff]
  intro entry _
  simp [shown, discards, LayerMap.discardAll, LayerMap.lookup]

private theorem deposit_eq_ok {placement : Placement K} {node : Node K}
    {geometry after : LayerGeometry K}
    (success : placement.deposit node geometry = .ok after) (layer : String) :
    after.polygons layer = geometry.polygons layer ++ Drawing.on (placement.drawing node) layer := by
  unfold deposit at success
  unfold drawing
  generalize node.geometry.entries = entries at success
  induction entries generalizing geometry with
  | nil =>
    cases Except.ok.inj success
    simp
  | cons entry rest ih =>
    rw [List.foldlM_cons] at success
    obtain ⟨next, first, later⟩ := bind_eq_ok_iff.mp success
    obtain ⟨destination, found, added⟩ := bind_eq_ok_iff.mp first
    rw [ih later, List.flatMap_cons, Drawing.on_append, ← List.append_assoc]
    congr 1
    cases destination with
    | none =>
      cases Except.ok.inj added
      simp [shown, found]
    | some destination =>
      cases Except.ok.inj added
      rw [LayerGeometry.polygons_add, List.map_map]
      simp [shown, found, Function.comp_def]

theorem under_eq_ok_iff {inner outer below : Placement K} :
    inner.under outer = .ok below ↔ below.node = inner.node ∧
      below.transform = outer.transform.compose inner.transform ∧
      inner.layerMap.compose outer.layerMap = .ok below.layerMap := by
  obtain ⟨node, transform, layerMap⟩ := below
  unfold under
  cases inner.layerMap.compose outer.layerMap with
  | error error => simp
  | ok composed => simp [pure, Except.pure, eq_comm]

end Placement

namespace Layout

omit [Scalar K] in
theorem follow_leads {layout : Layout K} {allowance : Nat} {reference : Reference K}
    {chain : Chain K} (success : layout.follow allowance reference = .ok chain) :
    Relation.ReflTransGen layout.Leads reference.target (.node chain.node) := by
  fun_induction layout.follow allowance reference generalizing chain with
  | case1 allowance reference key target =>
    cases Except.ok.inj success
    rw [target]
  | case2 | case3 | case4 => cases success
  | case5 reference key target inner found allowance chain followed ih =>
    have lower := ih followed
    cases Except.ok.inj success
    rw [target]
    exact .head (.stack (reference_eq_ok_iff.mp found)) lower

omit [Scalar K] in
/-- The node that a child leads to lies below the node that it is a child of. -/
theorem below_of_resolve {layout : Layout K} {key inner : NodeKey} {node : Node K}
    {child : String × Reference K} (found : layout.node key = .ok node)
    (member : child ∈ node.children) (resolved : layout.resolve child.2 = .ok inner) :
    layout.Below (.node inner) (.node key) := by
  obtain ⟨chain, followed, same⟩ := bind_eq_ok_iff.mp resolved
  rw [← Except.ok.inj same]
  exact .head' (.child (node_eq_ok_iff.mp found) member) (follow_leads followed)

/-- A placement is made of what is seen of a reference. -/
theorem placement_eq (layout : Layout K) (reference : Reference K) :
    layout.placement reference = do
      let node ← layout.resolve reference
      let transform ← layout.flatTransform reference none
      return ⟨node, transform, ← layout.flatLayerMap reference none⟩ := by
  unfold placement resolve flatTransform flatLayerMap
  cases layout.chain reference <;> rfl

/-- The parts of a placement, each by itself. -/
theorem placement_eq_ok {layout : Layout K} {reference : Reference K} {placement : Placement K}
    (success : layout.placement reference = .ok placement) :
    layout.resolve reference = .ok placement.node ∧
      layout.flatTransform reference none = .ok placement.transform ∧
      layout.flatLayerMap reference none = .ok placement.layerMap := by
  obtain ⟨chain, followed, rest⟩ := bind_eq_ok_iff.mp success
  obtain ⟨layerMap, mapped, same⟩ := bind_eq_ok_iff.mp rest
  rw [← Except.ok.inj same]
  refine ⟨bind_eq_ok_iff.mpr ⟨chain, followed, rfl⟩, bind_eq_ok_iff.mpr ⟨chain, followed, rfl⟩, ?_⟩
  exact bind_eq_ok_iff.mpr ⟨chain, followed, mapped⟩

theorem placementsBelow_eq_ok_iff {layout : Layout K} {placement : Placement K} {node : Node K}
    {children : List (Placement K)} : layout.placementsBelow placement node = .ok children ↔
      List.Forall₂ (fun child below => ∃ inner, layout.placement child.2 = .ok inner ∧
        inner.under placement = .ok below) node.children children := by
  unfold placementsBelow
  constructor
  · intro success
    obtain ⟨reversed, composed, same⟩ := bind_eq_ok_iff.mp success
    rw [mapM_eq_ok_iff] at composed
    rw [← Except.ok.inj same, ← List.forall₂_reverse_iff, List.reverse_reverse]
    exact composed.imp fun _ _ placed => bind_eq_ok_iff.mp placed
  · intro pairs
    refine bind_eq_ok_iff.mpr ⟨children.reverse, mapM_eq_ok_iff.mpr ?_, by rw [List.reverse_reverse]; rfl⟩
    exact (List.forall₂_reverse_iff.mpr pairs).imp fun _ _ placed => bind_eq_ok_iff.mpr placed

theorem placementsBelow_discardAll {layout : Layout K} {placement : Placement K} {node : Node K}
    {children : List (Placement K)} (discards : placement.layerMap = .discardAll)
    (composed : layout.placementsBelow placement node = .ok children) :
    ∀ child ∈ children, child.layerMap = .discardAll := by
  intro child listed
  obtain ⟨_, _, inner, _, fits⟩ :=
    exists_mem_of_forall₂ (placementsBelow_eq_ok_iff.mp composed) listed
  obtain ⟨_, _, joined⟩ := Placement.under_eq_ok_iff.mp fits
  rw [discards, LayerMap.compose_discardAll] at joined
  exact (Except.ok.inj joined).symm

/-- What pending placements show, one after the other. A placement that discards every layer need
not be looked into. -/
inductive Shows (layout : Layout K) : List (Placement K) → Drawing K → Prop where
  | nothing : Shows layout [] []
  | skip {placement : Placement K} {rest : List (Placement K)} {later : Drawing K}
      (discards : placement.layerMap = .discardAll) (after : Shows layout rest later) :
      Shows layout (placement :: rest) later
  | visit {placement : Placement K} {node : Node K} {children rest : List (Placement K)}
      {below later : Drawing K} (found : layout.node placement.node = .ok node)
      (composed : layout.placementsBelow placement node = .ok children)
      (inside : Shows layout children below) (after : Shows layout rest later) :
      Shows layout (placement :: rest) (placement.drawing node ++ below ++ later)

theorem Shows.split {layout : Layout K} {first second : List (Placement K)} {drawing : Drawing K}
    (shows : layout.Shows (first ++ second) drawing) :
    ∃ earlier later, drawing = earlier ++ later ∧ layout.Shows first earlier ∧
      layout.Shows second later := by
  induction first generalizing drawing with
  | nil => exact ⟨[], drawing, rfl, .nothing, shows⟩
  | cons placement first ih =>
    cases shows with
    | skip discards after =>
      obtain ⟨earlier, later, same, before, behind⟩ := ih after
      exact ⟨earlier, later, same, .skip discards before, behind⟩
    | visit found composed inside after =>
      obtain ⟨earlier, later, rfl, before, behind⟩ := ih after
      exact ⟨_, later, (List.append_assoc _ _ _).symm, .visit found composed inside before, behind⟩

theorem Shows.append {layout : Layout K} {first second : List (Placement K)} {earlier later : Drawing K}
    (start : layout.Shows first earlier) (rest : layout.Shows second later) :
    layout.Shows (first ++ second) (earlier ++ later) := by
  induction start with
  | nothing => exact rest
  | skip discards after ih => exact .skip discards ih
  | visit found composed inside after _ ih =>
    rw [List.append_assoc]
    exact .visit found composed inside ih

/-- Nothing is shown where every layer is discarded. -/
theorem Shows.eq_nil {layout : Layout K} {placements : List (Placement K)} {drawing : Drawing K}
    (shows : layout.Shows placements drawing)
    (discards : ∀ placement ∈ placements, placement.layerMap = .discardAll) : drawing = [] := by
  induction shows with
  | nothing => rfl
  | skip _ _ ih => exact ih (List.forall_mem_cons.mp discards).2
  | @visit placement node children rest below later found composed inside after ihInside ihAfter =>
    obtain ⟨first, others⟩ := List.forall_mem_cons.mp discards
    rw [Placement.drawing_discardAll first, ihInside (placementsBelow_discardAll first composed),
      ihAfter others]
    rfl

private theorem visit_eq_ok {layout : Layout K} {pending : List (Nat × Placement K)}
    {geometry after : LayerGeometry K} (success : layout.visit pending geometry = .ok after) :
    ∃ drawing, layout.Shows (pending.map (·.2)) drawing ∧
      ∀ layer, after.polygons layer = geometry.polygons layer ++ Drawing.on drawing layer := by
  fun_induction visit layout pending geometry with
  | case1 geometry =>
    cases Except.ok.inj success
    exact ⟨[], .nothing, by simp⟩
  | case2 geometry depth placement rest discards ih =>
    obtain ⟨drawing, shows, same⟩ := ih success
    exact ⟨drawing, .skip discards shows, same⟩
  | case3 | case4 | case5 | case6 => cases success
  | case7 geometry placement rest kept depth node found added deposited composed ih =>
    obtain ⟨drawing, shows, same⟩ := ih success
    have split : ((layout.following placement).map (depth, ·) ++ rest).map (·.2) =
        layout.following placement ++ rest.map (·.2) := by
      simp [Function.comp_def]
    rw [split] at shows
    obtain ⟨below, later, rfl, inside, after⟩ := shows.split
    refine ⟨placement.drawing node ++ below ++ later, .visit found composed inside after, fun layer => ?_⟩
    rw [same, Placement.deposit_eq_ok deposited, Drawing.on_append, Drawing.on_append,
      Drawing.on_append, List.append_assoc, List.append_assoc]

/-- A flattened reference has on each layer what its placement shows there. -/
theorem flatten_eq_ok {layout : Layout K} {reference : Reference K} {flattened : Flattened K}
    (success : layout.flatten reference = .ok flattened) :
    ∃ placement drawing, layout.placement reference = .ok placement ∧
      layout.Shows [placement] drawing ∧
      ∀ layer, flattened.geometry.polygons layer = Drawing.on drawing layer := by
  obtain ⟨placement, found, rest⟩ := bind_eq_ok_iff.mp success
  obtain ⟨geometry, visited, same⟩ := bind_eq_ok_iff.mp rest
  obtain ⟨drawing, shows, collected⟩ := visit_eq_ok visited
  cases Except.ok.inj same
  exact ⟨placement, drawing, found, shows, collected⟩

end Layout

end MaskLayout
