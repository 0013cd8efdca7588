import MaskLayout.Cif.Fragment
import MaskLayout.Proofs.Layout.Picture

namespace MaskLayout

variable {K : Type}

/-- The layers of the polygons that have corners. -/
def Drawing.layers (drawing : Drawing K) : List String := (visible drawing).map (·.1)

theorem Drawing.layers_append (first second : Drawing K) :
    layers (first ++ second) = layers first ++ layers second := by
  simp [layers, visible_append]

theorem Drawing.count_layers (drawing : Drawing K) (layer : String) :
    (layers drawing).count layer = ((visible drawing).on layer).length := by
  unfold layers Drawing.on
  rw [List.length_map, List.count_eq_countP, List.countP_map, List.countP_eq_length_filter]
  rfl

/-- The layer of every polygon that has corners. -/
def LayerGeometry.marks (geometry : LayerGeometry K) : List String :=
  geometry.entries.flatMap fun entry =>
    (entry.2.filter fun polygon => !polygon.isEmpty).map fun _ => entry.1

/-- Where a map keeps a layer. -/
def LayerMap.kept? (map : LayerMap) (layer : String) : Option String :=
  (map.lookup layer).toOption.join

theorem LayerMap.kept?_eq_some_iff {map : LayerMap} {layer destination : String} :
    map.kept? layer = some destination ↔ map.lookup layer = .ok (some destination) := by
  unfold kept?
  cases map.lookup layer with
  | error error => simp [Except.toOption]
  | ok result => cases result <;> simp [Except.toOption]

theorem LayerGeometry.mem_marks_iff {geometry : LayerGeometry K} {layer : String} :
    layer ∈ geometry.marks ↔ ∃ entry ∈ geometry.entries, entry.1 = layer ∧
      (entry.2.filter fun polygon => !polygon.isEmpty) ≠ [] := by
  rw [marks, List.mem_flatMap]
  constructor
  · intro marked
    obtain ⟨entry, listed, inside⟩ := marked
    obtain ⟨polygon, drawn, same⟩ := List.mem_map.mp inside
    exact ⟨entry, listed, same, List.ne_nil_of_mem drawn⟩
  · intro drawn
    obtain ⟨entry, listed, same, visible⟩ := drawn
    obtain ⟨polygon, member⟩ := List.exists_mem_of_ne_nil _ visible
    exact ⟨entry, listed, List.mem_map.mpr ⟨polygon, member, same⟩⟩

theorem LayerGeometry.count_marks (geometry : LayerGeometry K) (layer : String) :
    geometry.marks.count layer =
      ((geometry.polygons layer).filter fun polygon => !polygon.isEmpty).length := by
  have same : geometry.marks =
      Drawing.layers (geometry.entries.flatMap fun entry => entry.2.map (entry.1, ·)) := by
    simp [marks, Drawing.layers, Drawing.visible, List.filter_flatMap, List.map_flatMap,
      List.filter_map, Function.comp_def]
  rw [same, Drawing.count_layers, Drawing.on_visible, on_entries]

variable [Scalar K]

theorem Placement.layers_drawing (placement : Placement K) (node : Node K) :
    (placement.drawing node).layers = node.geometry.marks.filterMap placement.layerMap.kept? := by
  unfold Placement.drawing LayerGeometry.marks
  generalize node.geometry.entries = entries
  induction entries with
  | nil => rfl
  | cons entry entries ih =>
    rw [List.flatMap_cons, List.flatMap_cons, Drawing.layers_append, ih, List.filterMap_append]
    congr 1
    unfold Placement.shown LayerMap.kept?
    rw [List.filterMap_map]
    cases found : placement.layerMap.lookup entry.1 with
    | error error => simp [found, Drawing.layers, Except.toOption]
    | ok destination =>
      cases destination with
      | none => simp [found, Drawing.layers, Except.toOption]
      | some destination =>
        simp [found, Drawing.layers, Drawing.visible, List.filter_map, Function.comp_def, Polygon.map,
          Polygon.isEmpty, Except.toOption]

/-- Depositing fails only for a layer that the map does not know. -/
theorem Placement.exists_deposit_iff {placement : Placement K} {node : Node K}
    {geometry : LayerGeometry K} :
    (∃ after, placement.deposit node geometry = .ok after) ↔
      ∀ entry ∈ node.geometry.entries, ∃ destination,
        placement.layerMap.lookup entry.1 = .ok destination := by
  unfold Placement.deposit
  generalize node.geometry.entries = entries
  induction entries generalizing geometry with
  | nil => simp [pure, Except.pure]
  | cons entry entries ih =>
    rw [List.foldlM_cons, List.forall_mem_cons]
    constructor
    · intro success
      obtain ⟨after, deposited⟩ := success
      obtain ⟨next, first, rest⟩ := bind_eq_ok_iff.mp deposited
      obtain ⟨destination, known, _⟩ := bind_eq_ok_iff.mp first
      exact ⟨⟨destination, known⟩, ih.mp ⟨after, rest⟩⟩
    · intro known
      obtain ⟨⟨destination, found⟩, others⟩ := known
      cases destination with
      | none =>
        obtain ⟨after, rest⟩ := ih.mpr others
        exact ⟨after, bind_eq_ok_iff.mpr ⟨geometry, bind_eq_ok_iff.mpr ⟨none, found, rfl⟩, rest⟩⟩
      | some destination =>
        obtain ⟨after, rest⟩ := ih.mpr others
        exact ⟨after, bind_eq_ok_iff.mpr ⟨_, bind_eq_ok_iff.mpr ⟨some destination, found, rfl⟩, rest⟩⟩

namespace Cif

/-- A placement without its transform. -/
def fragmentOf (placement : Placement K) : Fragment := ⟨placement.node, placement.layerMap⟩

/-- The fragment that a reference stands for by itself. -/
def standsFor (layout : Layout K) (reference : Reference K) : Except LayoutError Fragment :=
  (layout.placement reference).map fragmentOf

/-- The fragment that a reference stands for under a layer map. -/
def reach (layout : Layout K) (layerMap : LayerMap) (reference : Reference K) :
    Except LayoutError Fragment := do
  let inner ← standsFor layout reference
  return ⟨inner.node, ← inner.layerMap.compose layerMap⟩

/-- The layers of all polygons below fragments. Every layer is known to the map that is in effect,
and every child can be followed. -/
inductive Marks (layout : Layout K) : List Fragment → List String → Prop where
  | nothing : Marks layout [] []
  | visit {fragment : Fragment} {node : Node K} {children rest : List Fragment}
      {within later : List String} (found : layout.node fragment.node = .ok node)
      (known : ∀ entry ∈ node.geometry.entries, ∃ destination,
        fragment.layerMap.lookup entry.1 = .ok destination)
      (reached : List.Forall₂ (fun child lower => reach layout fragment.layerMap child.2 = .ok lower)
        node.children children)
      (inside : Marks layout children within) (after : Marks layout rest later) :
      Marks layout (fragment :: rest)
        (node.geometry.marks.filterMap fragment.layerMap.kept? ++ within ++ later)

/-- The layers below a fragment can be marked. -/
def Marked (layout : Layout K) (fragment : Fragment) : Prop := ∃ marked, Marks layout [fragment] marked

variable {layout : Layout K}

theorem standsFor_eq_ok_iff {reference : Reference K} {fragment : Fragment} :
    standsFor layout reference = .ok fragment ↔
      ∃ placement, layout.placement reference = .ok placement ∧ fragmentOf placement = fragment :=
  map_eq_ok_iff

theorem reach_eq_ok_iff {layerMap : LayerMap} {reference : Reference K} {fragment : Fragment} :
    reach layout layerMap reference = .ok fragment ↔ ∃ inner, standsFor layout reference = .ok inner ∧
      inner.node = fragment.node ∧ inner.layerMap.compose layerMap = .ok fragment.layerMap := by
  constructor
  · intro success
    obtain ⟨inner, stands, rest⟩ := bind_eq_ok_iff.mp success
    obtain ⟨joined, fits, same⟩ := bind_eq_ok_iff.mp rest
    cases Except.ok.inj same
    exact ⟨inner, stands, rfl, fits⟩
  · intro parts
    obtain ⟨node, layerMap⟩ := fragment
    obtain ⟨inner, stands, rfl, fits⟩ := parts
    exact bind_eq_ok_iff.mpr ⟨inner, stands, bind_eq_ok_iff.mpr ⟨layerMap, fits, rfl⟩⟩

private theorem below_of_standsFor {key : NodeKey} {node : Node K} {child : String × Reference K}
    {inner : Fragment} (found : layout.node key = .ok node) (member : child ∈ node.children)
    (stands : standsFor layout child.2 = .ok inner) : layout.Below (.node inner.node) (.node key) := by
  obtain ⟨placement, placed, rfl⟩ := standsFor_eq_ok_iff.mp stands
  exact Layout.below_of_resolve found member (Layout.placement_eq_ok placed).1

theorem below_of_reach {layerMap : LayerMap} {key : NodeKey} {node : Node K}
    {child : String × Reference K} {lower : Fragment} (found : layout.node key = .ok node)
    (member : child ∈ node.children) (reached : reach layout layerMap child.2 = .ok lower) :
    layout.Below (.node lower.node) (.node key) := by
  obtain ⟨inner, stands, same, _⟩ := reach_eq_ok_iff.mp reached
  exact same ▸ below_of_standsFor found member stands

/-- A child is placed below a placement exactly when it can be reached from its fragment. -/
theorem reach_under_iff {outer : Placement K} {reference : Reference K} {lower : Fragment} :
    reach layout outer.layerMap reference = .ok lower ↔ ∃ below, (do
      (← layout.placement reference).under outer) = .ok below ∧ fragmentOf below = lower := by
  rw [reach_eq_ok_iff]
  constructor
  · intro reached
    obtain ⟨_, stands, same, fits⟩ := reached
    obtain ⟨inner, placed, rfl⟩ := standsFor_eq_ok_iff.mp stands
    refine ⟨⟨inner.node, outer.transform.compose inner.transform, lower.layerMap⟩, ?_, ?_⟩
    · exact bind_eq_ok_iff.mpr ⟨inner, placed, bind_eq_ok_iff.mpr ⟨lower.layerMap, fits, rfl⟩⟩
    · exact congrArg (Fragment.mk · lower.layerMap) same
  · intro placed
    obtain ⟨below, composed, rfl⟩ := placed
    obtain ⟨inner, found, under⟩ := bind_eq_ok_iff.mp composed
    obtain ⟨joined, fits, same⟩ := bind_eq_ok_iff.mp under
    cases Except.ok.inj same
    exact ⟨fragmentOf inner, standsFor_eq_ok_iff.mpr ⟨inner, found, rfl⟩, rfl, fits⟩

theorem reach_of_placementsBelow {placement : Placement K} {node : Node K}
    {children : List (Placement K)} (composed : layout.placementsBelow placement node = .ok children) :
    List.Forall₂ (fun child lower => reach layout placement.layerMap child.2 = .ok lower)
      node.children (children.map fragmentOf) := by
  rw [List.forall₂_map_right_iff]
  refine (Layout.placementsBelow_eq_ok_iff.mp composed).imp fun child below placed => ?_
  exact reach_under_iff.mpr ⟨below, bind_eq_ok_iff.mpr placed, rfl⟩

theorem exists_placementsBelow_iff {placement : Placement K} {node : Node K} :
    (∃ children, layout.placementsBelow placement node = .ok children) ↔
      ∀ child ∈ node.children, ∃ lower, reach layout placement.layerMap child.2 = .ok lower := by
  constructor
  · intro success child member
    obtain ⟨children, composed⟩ := success
    obtain ⟨lower, _, reached⟩ :=
      exists_mem_of_forall₂ (reach_of_placementsBelow composed).flip member
    exact ⟨lower, reached⟩
  · intro reached
    have placed : ∀ child ∈ node.children.reverse, ∃ below, (do
        (← layout.placement child.2).under placement) = .ok below := by
      intro child member
      obtain ⟨lower, found⟩ := reached child (List.mem_reverse.mp member)
      obtain ⟨below, composed, _⟩ := reach_under_iff.mp found
      exact ⟨below, composed⟩
    obtain ⟨reversed, composed⟩ := exists_mapM_iff.mpr placed
    exact ⟨reversed.reverse, bind_eq_ok_iff.mpr ⟨reversed, composed, rfl⟩⟩

theorem Marks.unique {fragments : List Fragment} {marked other : List String}
    (first : Marks layout fragments marked) (second : Marks layout fragments other) :
    marked = other := by
  induction first generalizing other with
  | nothing =>
    cases second
    rfl
  | visit found known reached inside after ihInside ihAfter =>
    cases second with
    | visit found' _ reached' inside' after' =>
      cases Except.ok.inj (found.symm.trans found')
      cases Except.ok.inj ((mapM_eq_ok_iff.mpr reached).symm.trans (mapM_eq_ok_iff.mpr reached'))
      rw [ihInside inside', ihAfter after']

theorem Marks.append {first second : List Fragment} {earlier later : List String}
    (start : Marks layout first earlier) (rest : Marks layout second later) :
    Marks layout (first ++ second) (earlier ++ later) := by
  induction start with
  | nothing => exact rest
  | visit found known reached inside after _ ih =>
    rw [List.append_assoc]
    exact .visit found known reached inside ih

theorem Marks.split {first second : List Fragment} {marked : List String}
    (marks : Marks layout (first ++ second) marked) :
    ∃ earlier later, marked = earlier ++ later ∧ Marks layout first earlier ∧
      Marks layout second later := by
  induction first generalizing marked with
  | nil => exact ⟨[], marked, rfl, .nothing, marks⟩
  | cons fragment first ih =>
    cases marks with
    | visit found known reached inside after =>
      obtain ⟨earlier, later, rfl, before, behind⟩ := ih after
      exact ⟨_, later, (List.append_assoc _ _ _).symm, .visit found known reached inside before, behind⟩

theorem Marks.cons_split {fragment : Fragment} {rest : List Fragment} {marked : List String}
    (marks : Marks layout (fragment :: rest) marked) :
    ∃ own later, marked = own ++ later ∧ Marks layout [fragment] own ∧ Marks layout rest later := by
  rw [← List.singleton_append] at marks
  exact marks.split

/-- Fragments can be marked together exactly when each can be by itself. -/
theorem exists_marks_iff {fragments : List Fragment} :
    (∃ marked, Marks layout fragments marked) ↔ ∀ fragment ∈ fragments, Marked layout fragment := by
  induction fragments with
  | nil => simpa using ⟨[], Marks.nothing⟩
  | cons fragment rest ih =>
    rw [List.forall_mem_cons, ← ih]
    constructor
    · intro together
      obtain ⟨marked, marks⟩ := together
      obtain ⟨earlier, later, _, first, after⟩ := marks.cons_split
      exact ⟨⟨earlier, first⟩, later, after⟩
    · intro apart
      obtain ⟨⟨earlier, first⟩, later, after⟩ := apart
      exact ⟨earlier ++ later, first.append after⟩

/-- A fragment can be marked if its own layers are known and what its children stand for can be. -/
theorem marked_iff {fragment : Fragment} : Marked layout fragment ↔
    ∃ node, layout.node fragment.node = .ok node ∧
      (∀ entry ∈ node.geometry.entries, ∃ destination,
        fragment.layerMap.lookup entry.1 = .ok destination) ∧
      ∀ child ∈ node.children, ∃ lower, reach layout fragment.layerMap child.2 = .ok lower ∧
        Marked layout lower := by
  constructor
  · intro marked
    obtain ⟨_, marks⟩ := marked
    cases marks with
    | @visit _ node children _ within _ found known reached inside after =>
      refine ⟨node, found, known, fun child member => ?_⟩
      obtain ⟨lower, listed, pair⟩ := exists_mem_of_forall₂ reached.flip member
      exact ⟨lower, pair, exists_marks_iff.mp ⟨within, inside⟩ lower listed⟩
  · intro parts
    obtain ⟨node, found, known, each⟩ := parts
    obtain ⟨children, reached⟩ := exists_mapM_iff.mpr fun child member =>
      (each child member).imp fun _ pair => pair.1
    rw [mapM_eq_ok_iff] at reached
    have below : ∀ lower ∈ children, Marked layout lower := by
      intro lower listed
      obtain ⟨child, member, pair⟩ := exists_mem_of_forall₂ reached listed
      obtain ⟨other, same, marked⟩ := each child member
      exact Except.ok.inj (same.symm.trans pair) ▸ marked
    obtain ⟨within, inside⟩ := exists_marks_iff.mpr below
    exact ⟨_, .visit found known reached inside .nothing⟩

/-- Everything below the fragments of a list can be marked, if their layers are known and the list has
all that their children are reached as. -/
theorem marked_of_listed (acyclic : layout.Acyclic) (fragments : List Fragment)
    (closed : ∀ fragment ∈ fragments, ∃ node ∈ (layout.node fragment.node).toOption,
      (∀ entry ∈ node.geometry.entries, (fragment.layerMap.lookup entry.1).isOk) ∧
      ∀ child ∈ node.children, ∃ lower ∈ (reach layout fragment.layerMap child.2).toOption,
        lower ∈ fragments) {root : Fragment} (listed : root ∈ fragments) : Marked layout root := by
  generalize start : Target.node root.node = entry
  induction entry using acyclic.wellFounded.induction generalizing root with
  | h entry ih =>
    obtain ⟨node, found, known, each⟩ := closed root listed
    rw [mem_toOption_iff] at found
    refine marked_iff.mpr ⟨node, found, fun entry member => exists_eq_ok_iff.mpr (known entry member), ?_⟩
    intro child member
    obtain ⟨lower, reached, inside⟩ := each child member
    rw [mem_toOption_iff] at reached
    exact ⟨lower, reached, ih _ (start ▸ below_of_reach found member reached) inside rfl⟩

/-- Nothing is marked where every layer is discarded. -/
theorem Marks.eq_nil {fragments : List Fragment} {marked : List String}
    (marks : Marks layout fragments marked)
    (discards : ∀ fragment ∈ fragments, fragment.layerMap = .discardAll) : marked = [] := by
  induction marks with
  | nothing => rfl
  | visit found known reached inside after ihInside ihAfter =>
    obtain ⟨first, others⟩ := List.forall_mem_cons.mp discards
    have below := ihInside fun lower listed => by
      obtain ⟨child, _, pair⟩ := exists_mem_of_forall₂ reached listed
      obtain ⟨inner, _, _, fits⟩ := reach_eq_ok_iff.mp pair
      rw [first, LayerMap.compose_discardAll] at fits
      exact (Except.ok.inj fits).symm
    rw [below, ihAfter others, first]
    simp [LayerMap.kept?, LayerMap.discardAll, LayerMap.lookup, Except.toOption]

end Cif

end MaskLayout
