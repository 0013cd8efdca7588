import Mathlib.Algebra.GroupWithZero.Nat
import MaskLayout.Proofs.LayerMap.Brackets
import MaskLayout.Proofs.Layout.Picture
import MaskLayout.Proofs.Layout.Stack
import MaskLayout.Proofs.Layout.Validation

/-!
Going down through the children of a reference, one level at a time. A child that is taken out of its
node has the map of its parent around its own map only, not around the map of what it is stacked on.
Where the brackets make no difference it is placed as flattening places it, and the polygons below a
reference are those of its node and those below its children.
-/
namespace MaskLayout

variable {K : Type}

/-- The polygons of all layers that a map sends to one layer. -/
def LayerGeometry.sent (geometry : LayerGeometry K) (layerMap : LayerMap) (layer : String) :
    List (Polygon K) :=
  (geometry.entries.filter fun entry => layerMap.lookup entry.1 = .ok (some layer)).flatMap (·.2)

variable [Scalar K]

namespace Placement

private theorem length_on_drawing (placement : Placement K) (node : Node K) (layer : String) :
    (Drawing.on (placement.drawing node) layer).length =
      (node.geometry.sent placement.layerMap layer).length := by
  unfold drawing LayerGeometry.sent
  generalize node.geometry.entries = entries
  induction entries with
  | nil => rfl
  | cons entry entries ih =>
    rw [List.flatMap_cons, Drawing.on_append, List.length_append, ih, List.filter_cons]
    unfold shown
    cases found : placement.layerMap.lookup entry.1 with
    | error error => simp
    | ok destination =>
      cases destination with
      | none => simp
      | some destination =>
        by_cases same : layer = destination
        · simp [Drawing.on, List.filter_map, Function.comp_def, same]
        · simp [Drawing.on, List.filter_map, Function.comp_def, Ne.symm same]

/-- Placements of the same node under the same layer map. Their transforms may differ. -/
structure Aligned (first second : Placement K) : Prop where
  node : first.node = second.node
  layerMap : first.layerMap = second.layerMap

private theorem Aligned.layers_drawing {first second : Placement K} (aligned : first.Aligned second)
    (node : Node K) : (first.drawing node).map (·.1) = (second.drawing node).map (·.1) := by
  unfold drawing
  rw [List.map_flatMap, List.map_flatMap]
  congr 1
  funext entry
  unfold shown
  rw [aligned.layerMap]
  split
  · rw [List.map_map, List.map_map]
    rfl
  · rfl

end Placement

namespace Layout

variable {layout : Layout K}

private theorem placementsBelow_aligned {first second : Placement K}
    (aligned : first.Aligned second) {node : Node K} {children others : List (Placement K)}
    (composed : layout.placementsBelow first node = .ok children)
    (twin : layout.placementsBelow second node = .ok others) :
    List.Forall₂ Placement.Aligned children others := by
  rw [placementsBelow_eq_ok_iff] at composed twin
  refine forall₂_through composed.flip twin ?_
  rintro below child other ⟨inner, placed, here⟩ ⟨again, found, there⟩
  cases Except.ok.inj (placed.symm.trans found)
  obtain ⟨node, _, joined⟩ := Placement.under_eq_ok_iff.mp here
  obtain ⟨same, _, fits⟩ := Placement.under_eq_ok_iff.mp there
  rw [aligned.layerMap, fits] at joined
  exact ⟨node.trans same.symm, (Except.ok.inj joined).symm⟩

/-- What aligned placements show lies on the same layers. -/
theorem Shows.layers_eq {first second : List (Placement K)} {drawing other : Drawing K}
    (shows : layout.Shows first drawing) (twin : layout.Shows second other)
    (aligned : List.Forall₂ Placement.Aligned first second) :
    drawing.map (·.1) = other.map (·.1) := by
  induction shows generalizing second other with
  | nothing =>
    cases aligned
    cases twin
    rfl
  | @skip placement rest later discards after ih =>
    cases aligned with
    | @cons _ mate _ others pair behind =>
      -- A placement that is passed over shows nothing, and so does its counterpart if it is not.
      have parted : layout.Shows ([mate] ++ others) other := twin
      obtain ⟨own, remaining, rfl, here, there⟩ := parted.split
      have silent : own = [] := here.eq_nil (by simpa using pair.layerMap.symm.trans discards)
      rw [silent, ih there behind, List.nil_append]
  | @visit placement node children rest below later found composed inside after ihInside ihAfter =>
    cases aligned with
    | @cons _ mate _ others pair behind =>
      cases twin with
      | skip discards there =>
        have whole : layout.Shows [placement] (placement.drawing node ++ below ++ []) :=
          .visit found composed inside .nothing
        have silent := whole.eq_nil (by simpa using pair.layerMap.trans discards)
        rw [List.append_nil] at silent
        rw [silent, ← ihAfter there behind, List.nil_append]
      | @visit _ node' _ _ _ _ found' composed' inside' after' =>
        rw [pair.node, found'] at found
        cases Except.ok.inj found
        have lower := ihInside inside' (placementsBelow_aligned pair composed composed')
        simp only [List.map_append, pair.layers_drawing node, lower, ihAfter after' behind]

/-- What references show that are flattened one by one. -/
theorem exists_shows_of_flattened {references : List (Reference K)} {parts : List (Flattened K)}
    (flattened : List.Forall₂ (fun reference part => layout.flatten reference = .ok part)
      references parts) :
    ∃ placements drawing,
      List.Forall₂ (fun reference placement => layout.placement reference = .ok placement)
        references placements ∧ layout.Shows placements drawing ∧
      ∀ layer, (Drawing.on drawing layer).length =
        (parts.map fun part => (part.geometry.polygons layer).length).sum := by
  induction flattened with
  | nil => exact ⟨[], [], .nil, .nothing, fun layer => rfl⟩
  | cons first _ ih =>
    obtain ⟨placement, own, placed, here, counts⟩ := flatten_eq_ok first
    obtain ⟨placements, drawing, others, rest, adds⟩ := ih
    refine ⟨placement :: placements, own ++ drawing, .cons placed others, here.append rest, ?_⟩
    intro layer
    rw [Drawing.on_append, List.length_append, adds, List.map_cons, List.sum_cons, counts]

/-- A child as it is taken out of its node: the same target, with the map around composed to its own. -/
structure TakenOut (around : LayerMap) (child taken : Reference K) : Prop where
  target : taken.target = child.target
  layerMap : child.layerMap.compose around = .ok taken.layerMap

private theorem children_eq_ok {reference : Reference K} {children : List (String × Reference K)}
    (success : layout.children reference = .ok children) :
    ∃ root node, layout.placement reference = .ok root ∧ layout.node root.node = .ok node ∧
      List.Forall₂ (fun child taken => TakenOut root.layerMap child.2 taken.2) node.children children := by
  obtain ⟨root, placed, rest⟩ := bind_eq_ok_iff.mp success
  obtain ⟨node, found, composed⟩ := bind_eq_ok_iff.mp rest
  refine ⟨root, node, placed, found, (mapM_eq_ok_iff.mp composed).imp ?_⟩
  intro child taken pair
  obtain ⟨layerMap, joined, same⟩ := bind_eq_ok_iff.mp pair
  cases Except.ok.inj same
  exact ⟨rfl, joined⟩

/-- No name slips between what a reference is stacked on and a map around the reference. -/
def FirmUnder (layout : Layout K) (around : LayerMap) (reference : Reference K) : Prop :=
  ∀ own ∈ (layout.innerLayerMap reference).toOption,
    ∀ name, ¬ LayerMap.Slips own reference.layerMap around name

instance (layout : Layout K) (around : LayerMap) : DecidablePred (layout.FirmUnder around) :=
  fun reference => inferInstanceAs (Decidable (∀ own ∈ (layout.innerLayerMap reference).toOption,
    ∀ name, ¬ LayerMap.Slips own reference.layerMap around name))

/-- A child is placed alike, whether it is taken out first or not, if no name slips. -/
theorem TakenOut.aligned {root inner below seen : Placement K} {child taken : Reference K}
    (out : TakenOut root.layerMap child taken) (placed : layout.placement child = .ok inner)
    (under : inner.under root = .ok below) (found : layout.placement taken = .ok seen)
    (firm : layout.FirmUnder root.layerMap child) : below.Aligned seen := by
  obtain ⟨resolved, _, mapped⟩ := placement_eq_ok placed
  obtain ⟨leads, _, sent⟩ := placement_eq_ok found
  obtain ⟨node, _, fits⟩ := Placement.under_eq_ok_iff.mp under
  rw [resolve_swap out.target, resolved] at leads
  rw [flatLayerMap_eq] at mapped sent
  obtain ⟨own, start, first⟩ := bind_eq_ok_iff.mp mapped
  rw [innerLayerMap_swap out.target, start, ok_bind] at sent
  have same := LayerMap.compose_assoc_iff first fits out.layerMap sent
  exact ⟨node.trans (Except.ok.inj leads), same.mpr (firm own (mem_toOption_iff.mpr start))⟩

private theorem placementsBelow_taken {root : Placement K} {node : Node K}
    {children : List (String × Reference K)} {placements seen : List (Placement K)}
    (composed : layout.placementsBelow root node = .ok placements)
    (pairs : List.Forall₂ (fun child taken => TakenOut root.layerMap child.2 taken.2)
      node.children children)
    (placed : List.Forall₂ (fun taken upper => layout.placement taken.2 = .ok upper) children seen)
    (firm : ∀ child ∈ node.children, layout.FirmUnder root.layerMap child.2) :
    List.Forall₂ Placement.Aligned placements seen := by
  have through : List.Forall₂ (fun child upper => layout.FirmUnder root.layerMap child.2 ∧
      ∃ taken, TakenOut root.layerMap child.2 taken ∧ layout.placement taken = .ok upper)
      node.children seen :=
    forall₂_through ((List.forall₂_and_left ..).mpr ⟨firm, pairs⟩) placed
      fun child taken upper first second => ⟨first.1, taken.2, first.2, second⟩
  refine forall₂_through (placementsBelow_eq_ok_iff.mp composed).flip through ?_
  rintro below child upper ⟨inner, found, under⟩ ⟨kept, taken, out, there⟩
  exact out.aligned found under there kept

/-- A reference that discards every layer does so through whatever it is stacked on. -/
theorem placement_discardAll {reference : Reference K} {placement : Placement K}
    (discards : reference.layerMap = .discardAll)
    (placed : layout.placement reference = .ok placement) : placement.layerMap = .discardAll := by
  obtain ⟨_, _, mapped⟩ := placement_eq_ok placed
  rw [flatLayerMap_eq, discards] at mapped
  obtain ⟨own, _, fits⟩ := bind_eq_ok_iff.mp mapped
  rw [LayerMap.compose_discardAll] at fits
  exact (Except.ok.inj fits).symm

/-- Going down one level at a time loses nothing and adds nothing: on each layer a reference has the
polygons that its map sends there from its own node, and those that its children have there, each taken
out and flattened by itself. -/
theorem count_flatten {reference : Reference K} {flattened : Flattened K} {key : NodeKey}
    {node : Node K} {around : LayerMap} {children : List (String × Reference K)}
    {parts : List (Flattened K)} (whole : layout.flatten reference = .ok flattened)
    (resolved : layout.resolve reference = .ok key) (found : layout.node key = .ok node)
    (mapped : layout.flatLayerMap reference none = .ok around)
    (taken : layout.children reference = .ok children)
    (each : (children.mapM fun child => layout.flatten child.2) = .ok parts)
    (firm : ∀ child ∈ node.children, layout.FirmUnder around child.2) (layer : String) :
    (flattened.geometry.polygons layer).length = (node.geometry.sent around layer).length +
      (parts.map fun part => (part.geometry.polygons layer).length).sum := by
  obtain ⟨root, drawing, placed, shows, collected⟩ := flatten_eq_ok whole
  obtain ⟨leads, _, sends⟩ := placement_eq_ok placed
  cases Except.ok.inj (resolved.symm.trans leads)
  cases Except.ok.inj (mapped.symm.trans sends)
  obtain ⟨again, other, same, there, pairs⟩ := children_eq_ok taken
  cases Except.ok.inj (placed.symm.trans same)
  cases Except.ok.inj (found.symm.trans there)
  obtain ⟨seen, below, uppers, shown, adds⟩ :=
    exists_shows_of_flattened (List.forall₂_map_left_iff.mpr (mapM_eq_ok_iff.mp each))
  rw [List.forall₂_map_left_iff] at uppers
  rw [collected, ← adds, ← Placement.length_on_drawing]
  cases shows with
  | skip discards after =>
    cases after
    have silent : below = [] := shown.eq_nil fun upper listed => by
      obtain ⟨taken, member, placed⟩ := exists_mem_of_forall₂ uppers listed
      obtain ⟨child, _, out⟩ := exists_mem_of_forall₂ pairs member
      have joined := out.layerMap
      rw [discards, LayerMap.compose_discardAll] at joined
      exact placement_discardAll (Except.ok.inj joined).symm placed
    rw [silent, Placement.drawing_discardAll discards]
    rfl
  | @visit _ _ placements _ lower _ here composed inside after =>
    cases Except.ok.inj (here.symm.trans found)
    cases after
    have same := inside.layers_eq shown (placementsBelow_taken composed pairs uppers firm)
    rw [List.append_nil, Drawing.on_append, List.length_append, Drawing.length_on lower, same,
      ← Drawing.length_on below]

/-- A pad with two layers and a cell that has it three times: stacked on a shared renaming, with one
layer only, and hidden. -/
def drawer : Layout Float where
  name := "drawer"
  nodes := .ofSlots [
    .fresh ⟨"pad", (LayerGeometry.add .empty "fill" [.rectangle ⟨0, 0⟩ ⟨1, 1⟩]).add "rim"
      [.rectangle ⟨0, 0⟩ ⟨1, 1⟩, .rectangle ⟨2, 0⟩ ⟨3, 1⟩], []⟩,
    .fresh ⟨"cell", LayerGeometry.add .empty "metal" [.rectangle ⟨0, 0⟩ ⟨9, 9⟩], [
      ("stacked", ⟨.reference (.ofParts 1 1), .translate 3 0, .rename "ring" "metal"⟩),
      ("single", ⟨.node (.ofParts 1 1), .scale 2 2, .ofList [("fill", some "metal"), ("rim", none)]⟩),
      ("hidden", ⟨.reference (.ofParts 1 1), .identity, .discardAll⟩)]⟩]
  references := .ofSlots [
    .fresh ⟨.node (.ofParts 1 1), .translate 1 0, .ofList [("fill", some "inner"), ("rim", some "ring")]⟩]

theorem drawer_acyclic : drawer.Acyclic := acyclic_of_grounded (grounded_of_validate rfl)

/-- The cell of the drawer, with its metal on top. -/
def topped : Reference Float := ⟨.node (.ofParts 2 1), .translate 0 5, .rename "metal" "top"⟩

theorem topped_counts : ∃ flattened node children parts,
    drawer.flatten topped = .ok flattened ∧ drawer.node (.ofParts 2 1) = .ok node ∧
      drawer.children topped = .ok children ∧
      (children.mapM fun child => drawer.flatten child.2) = .ok parts ∧
      ∀ layer, (flattened.geometry.polygons layer).length =
        (node.geometry.sent (.rename "metal" "top") layer).length +
          (parts.map fun part => (part.geometry.polygons layer).length).sum := by
  obtain ⟨flattened, whole⟩ := exists_eq_ok_iff.mpr
    (show (drawer.flatten topped).isOk by decide +kernel)
  obtain ⟨node, found⟩ := exists_eq_ok_iff.mpr
    (show (drawer.node (.ofParts 2 1)).isOk by decide +kernel)
  obtain ⟨parts, descended⟩ := exists_eq_ok_iff.mpr
    (show (drawer.children topped >>= (·.mapM fun child => drawer.flatten child.2)).isOk by
      decide +kernel)
  obtain ⟨children, taken, each⟩ := bind_eq_ok_iff.mp descended
  have firm : ∀ node ∈ (drawer.node (.ofParts 2 1)).toOption, ∀ child ∈ node.children,
      drawer.FirmUnder (.rename "metal" "top") child.2 := by
    decide +kernel
  exact ⟨flattened, node, children, parts, whole, found, taken, each,
    count_flatten whole rfl found rfl taken each (firm node (mem_toOption_iff.mpr found))⟩

/-- The cell of the drawer, with the inner layer on top as well. -/
def spread : Reference Float :=
  ⟨.node (.ofParts 2 1), .identity, .ofList [("metal", some "top"), ("inner", some "top")]⟩

/-- Where a name slips the two ways part. The renaming that is shared sends the pad's filling to a
layer that the stacked child does not know, and on which it stays when the child is taken out first. -/
theorem count_flatten_fails : ¬ ∀ (layout : Layout Float) (reference : Reference Float)
    (flattened : Flattened Float) (key : NodeKey) (node : Node Float) (around : LayerMap)
    (children : List (String × Reference Float)) (parts : List (Flattened Float)), layout.Acyclic →
    layout.flatten reference = .ok flattened → layout.resolve reference = .ok key →
    layout.node key = .ok node → layout.flatLayerMap reference none = .ok around →
    layout.children reference = .ok children →
    (children.mapM fun child => layout.flatten child.2) = .ok parts →
    ∀ layer, (flattened.geometry.polygons layer).length = (node.geometry.sent around layer).length +
      (parts.map fun part => (part.geometry.polygons layer).length).sum := by
  intro law
  have together : (drawer.flatten spread).map (fun flattened =>
      (flattened.geometry.polygons "top").length) = .ok 5 := by
    decide +kernel
  have own : (drawer.node (.ofParts 2 1)).map (fun node =>
      (node.geometry.sent spread.layerMap "top").length) = .ok 1 := by
    decide +kernel
  have apart : (drawer.children spread >>= (·.mapM fun child => drawer.flatten child.2)).map
      (fun parts => (parts.map fun part => (part.geometry.polygons "top").length).sum) = .ok 3 := by
    decide +kernel
  obtain ⟨flattened, whole, five⟩ := map_eq_ok_iff.mp together
  obtain ⟨node, found, one⟩ := map_eq_ok_iff.mp own
  obtain ⟨parts, descended, three⟩ := map_eq_ok_iff.mp apart
  obtain ⟨children, taken, each⟩ := bind_eq_ok_iff.mp descended
  have counts := law drawer spread flattened (.ofParts 2 1) node spread.layerMap children parts
    drawer_acyclic whole rfl found rfl taken each "top"
  rw [five, one, three] at counts
  cases counts

end Layout

end MaskLayout
