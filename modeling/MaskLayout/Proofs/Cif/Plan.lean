import MaskLayout.Proofs.Cif.Agreement

namespace MaskLayout

variable {K : Type}

/-- A reference without its transform. -/
def Reference.plan (reference : Reference K) : Target × LayerMap := (reference.target, reference.layerMap)

/-- The geometry of a node, and its children without their transforms. -/
def Node.plan (node : Node K) : LayerGeometry K × List (String × Target × LayerMap) :=
  (node.geometry, node.children.map fun child => (child.1, child.2.plan))

/-- What a layout holds under which keys, without the transforms. -/
def Layout.plan (layout : Layout K) :
    List (NodeKey × LayerGeometry K × List (String × Target × LayerMap)) ×
      List (ReferenceKey × Target × LayerMap) :=
  (layout.nodes.entries.map fun entry => (entry.1, entry.2.plan),
    layout.references.entries.map fun entry => (entry.1, entry.2.plan))

namespace Layout

variable {first second : Layout K}

/-- Stores that list the same under the same keys find the same. -/
theorem exists_get?_of_entries {kind : Kind} {α β : Type} {first second : Arena kind α} {plan : α → β}
    (alike : (first.entries.map fun entry => (entry.1, plan entry.2)) =
      second.entries.map fun entry => (entry.1, plan entry.2)) {key : Key kind} {value : α}
    (found : first.get? key = some value) :
    ∃ other, second.get? key = some other ∧ plan other = plan value := by
  have listed : (key, plan value) ∈ first.entries.map fun entry => (entry.1, plan entry.2) :=
    List.mem_map.mpr ⟨(key, value), Arena.mem_entries_iff.mpr found, rfl⟩
  rw [alike] at listed
  obtain ⟨⟨_, other⟩, member, same⟩ := List.mem_map.mp listed
  obtain ⟨rfl, agrees⟩ := Prod.mk.inj same
  exact ⟨other, Arena.mem_entries_iff.mp member, agrees⟩

private theorem exists_node_of_plan (alike : first.plan = second.plan) {key : NodeKey} {node : Node K}
    (found : first.node key = .ok node) :
    ∃ other, second.node key = .ok other ∧ other.geometry = node.geometry ∧
      List.Forall₂ (fun child twin => child.2.plan = twin.2.plan) node.children other.children := by
  obtain ⟨other, there, same⟩ :=
    exists_get?_of_entries (Prod.mk.inj alike).1 (node_eq_ok_iff.mp found)
  obtain ⟨geometry, children⟩ := Prod.mk.inj same
  refine ⟨other, node_eq_ok_iff.mpr there, geometry, ?_⟩
  have pairs : List.Forall₂ Eq (node.children.map fun child => (child.1, child.2.plan))
      (other.children.map fun child => (child.1, child.2.plan)) := by
    rw [List.forall₂_eq_eq_eq]
    exact children.symm
  rw [List.forall₂_map_left_iff, List.forall₂_map_right_iff] at pairs
  exact pairs.imp fun child twin agrees => (Prod.mk.inj agrees).2

private theorem count_references_of_plan (alike : first.plan = second.plan) :
    first.references.count = second.references.count := by
  rw [← Arena.length_keys, ← Arena.length_keys, Arena.keys, Arena.keys, List.length_map, List.length_map]
  have lengths := congrArg List.length (Prod.mk.inj alike).2
  simpa using lengths

private theorem exists_follow_of_plan (alike : first.plan = second.plan) {allowance : Nat}
    {reference other : Reference K} (same : reference.plan = other.plan) {chain : Chain K}
    (followed : first.follow allowance reference = .ok chain) :
    ∃ twin, second.follow allowance other = .ok twin ∧ twin.node = chain.node ∧
      twin.links.map Reference.plan = chain.links.map Reference.plan := by
  obtain ⟨target, layerMap⟩ := Prod.mk.inj same
  fun_induction first.follow allowance reference generalizing other chain with
  | case1 allowance reference key here =>
    cases Except.ok.inj followed
    refine ⟨⟨[other], key⟩, ?_, rfl, by simp [same]⟩
    unfold follow
    simp [← target, here]
  | case2 | case3 | case4 => cases followed
  | case5 reference key here inner found allowance chain below ih =>
    cases Except.ok.inj followed
    obtain ⟨stored, there, agrees⟩ :=
      exists_get?_of_entries (Prod.mk.inj alike).2 (reference_eq_ok_iff.mp found)
    obtain ⟨twin, further, node, links⟩ :=
      ih agrees.symm below (Prod.mk.inj agrees.symm).1 (Prod.mk.inj agrees.symm).2
    refine ⟨⟨other :: twin.links, twin.node⟩, ?_, node, by simp [same, links]⟩
    unfold follow
    simp [← target, here, reference_eq_ok_iff.mpr there, further]

end Layout

variable [Scalar K]

omit [Scalar K] in
private theorem Chain.layerMap_of_plan {chain twin : Chain K}
    (same : twin.links.map Reference.plan = chain.links.map Reference.plan) :
    twin.layerMap none = chain.layerMap none := by
  have read (chain : Chain K) : chain.layerMap none =
      (chain.links.map Reference.plan).reverse.foldlM (fun below plan => below.compose plan.2)
        .identity := by
    rw [← List.map_reverse, List.foldlM_map]
    rfl
  rw [read, read, same]

namespace Cif

variable {first second : Layout K}

theorem standsFor_of_plan (alike : first.plan = second.plan) {reference other : Reference K}
    (same : reference.plan = other.plan) {fragment : Fragment}
    (stands : standsFor first reference = .ok fragment) : standsFor second other = .ok fragment := by
  obtain ⟨placement, placed, rfl⟩ := standsFor_eq_ok_iff.mp stands
  obtain ⟨chain, followed, rest⟩ := bind_eq_ok_iff.mp placed
  obtain ⟨layerMap, mapped, built⟩ := bind_eq_ok_iff.mp rest
  cases Except.ok.inj built
  obtain ⟨twin, further, node, links⟩ := Layout.exists_follow_of_plan alike same followed
  rw [Layout.count_references_of_plan alike] at further
  rw [← Chain.layerMap_of_plan links] at mapped
  refine standsFor_eq_ok_iff.mpr ⟨⟨twin.node, twin.transform none, layerMap⟩, ?_, ?_⟩
  · exact bind_eq_ok_iff.mpr ⟨twin, further, bind_eq_ok_iff.mpr ⟨layerMap, mapped, rfl⟩⟩
  · exact congrArg (Fragment.mk · layerMap) node

private theorem reach_of_plan (alike : first.plan = second.plan) {reference other : Reference K}
    (same : reference.plan = other.plan) {layerMap : LayerMap} {lower : Fragment}
    (reached : reach first layerMap reference = .ok lower) :
    reach second layerMap other = .ok lower := by
  obtain ⟨inner, stands, node, fits⟩ := reach_eq_ok_iff.mp reached
  exact reach_eq_ok_iff.mpr ⟨inner, standsFor_of_plan alike same stands, node, fits⟩

omit [Scalar K] in
/-- A node and a child of it in one layout, and what corresponds to them in the other. -/
theorem exists_child_of_plan (alike : first.plan = second.plan) {key : NodeKey} {node : Node K}
    {child : String × Reference K} (found : first.node key = .ok node) (member : child ∈ node.children) :
    ∃ other, second.node key = .ok other ∧ other.geometry = node.geometry ∧
      ∃ twin ∈ other.children, child.2.plan = twin.2.plan := by
  obtain ⟨other, there, geometry, children⟩ := Layout.exists_node_of_plan alike found
  obtain ⟨twin, listed, same⟩ := exists_mem_of_forall₂ children.flip member
  exact ⟨other, there, geometry, twin, listed, same⟩

theorem Marks.of_plan (alike : first.plan = second.plan) {fragments : List Fragment}
    {marked : List String} (marks : Marks first fragments marked) : Marks second fragments marked := by
  induction marks with
  | nothing => exact .nothing
  | visit found known reached inside after ihInside ihAfter =>
    obtain ⟨other, there, geometry, children⟩ := Layout.exists_node_of_plan alike found
    rw [← geometry] at known ⊢
    refine .visit there known ?_ ihInside ihAfter
    exact forall₂_through children.flip reached fun twin child lower same pair =>
      reach_of_plan alike same pair

private theorem Way.of_plan (alike : first.plan = second.plan) {top key : NodeKey} {maps : List LayerMap}
    (way : Way first anywhere top maps key) : Way second anywhere top maps key := by
  induction way with
  | start => exact .start
  | step way found member allowed stands ih =>
    obtain ⟨other, there, _, twin, listed, same⟩ := exists_child_of_plan alike found member
    exact .step ih there listed trivial (standsFor_of_plan alike same stands)

private theorem Within.of_plan (alike : first.plan = second.plan) {upper lower : Fragment}
    (within : Within first anywhere upper lower) : Within second anywhere upper lower := by
  obtain ⟨maps, way, composed⟩ := within
  exact ⟨maps, way.of_plan alike, composed⟩

private theorem Charted.of_plan (alike : first.plan = second.plan) {root : Fragment}
    (charted : Charted first root) : Charted second root := by
  intro fragment within node found entry listed blank
  obtain ⟨other, there, geometry, _⟩ := Layout.exists_node_of_plan alike.symm found
  exact charted fragment (within.of_plan alike.symm) other there entry (geometry ▸ listed) blank

private theorem Veiled.of_plan (alike : first.plan = second.plan) {root : Fragment}
    (veiled : Veiled first root) : Veiled second root := by
  intro fragment within discards
  obtain ⟨node, found, whole⟩ := veiled fragment (within.of_plan alike.symm) discards
  obtain ⟨other, there, _⟩ := Layout.exists_node_of_plan alike found
  refine ⟨other, there, fun twin listed => ?_⟩
  obtain ⟨node', found', _, child, member, same⟩ := exists_child_of_plan alike.symm there listed
  cases Except.ok.inj (found.symm.trans found')
  obtain ⟨inner, stands⟩ := whole child member
  exact ⟨inner, standsFor_of_plan alike same.symm stands⟩

private theorem Expandable.of_plan (alike : first.plan = second.plan) {around : LayerMap}
    {inner : Fragment}
    (expandable : Expandable first around inner) : Expandable second around inner where
  veiled := expandable.veiled.of_plan alike
  associates maps key node way found := by
    obtain ⟨other, there, geometry, _⟩ := Layout.exists_node_of_plan alike.symm found
    rw [← geometry]
    exact expandable.associates maps key other (way.of_plan alike.symm) there

theorem Comparable.of_plan (alike : first.plan = second.plan) {root : Fragment}
    (comparable : Comparable first anywhere anywhere root) :
    Comparable second anywhere anywhere root where
  charted := comparable.charted.of_plan alike
  veiled := comparable.veiled.of_plan alike
  expandable fragment within node found child member _ inner stands := by
    obtain ⟨other, there, _, twin, listed, same⟩ := exists_child_of_plan alike.symm found member
    exact (comparable.expandable fragment (within.of_plan alike.symm) other there twin listed trivial
      inner (standsFor_of_plan alike.symm same stands)).of_plan alike

end Cif

end MaskLayout
