import MaskLayout.Proofs.Layout.Termination
import MaskLayout.Proofs.Saved.Loading

namespace MaskLayout

def LayerMap.isTable : LayerMap → Bool
  | identity => false
  | constant _ => false
  | table _ => true

/-- The complaint of a table that does not know a layer. -/
def LayoutError.IsUnfamiliar (tables : Prop) (error : LayoutError) : Prop :=
  tables ∧ ∃ name, error = .unknownLayer name

namespace LayerMap

variable {tables : Prop}

theorem lookup_fails_only {map : LayerMap} (plain : map.isTable → tables) (name : String) :
    FailsOnly (LayoutError.IsUnfamiliar tables) (map.lookup name) := by
  cases map with
  | identity => trivial
  | constant destination => trivial
  | table entries =>
    simp only [lookup]
    cases entries.find? name with
    | some destination => trivial
    | none => exact ⟨plain rfl, name, rfl⟩

/-- Where there are no tables, none come about. -/
theorem compose_outcome {below above : LayerMap} (inner : below.isTable → tables)
    (outer : above.isTable → tables) :
    Outcome (fun map => map.isTable → tables) (LayoutError.IsUnfamiliar tables)
      (below.compose above) := by
  unfold compose
  split
  · exact inner
  · exact fun table => by cases table
  · exact outer
  · exact fun table => by cases table
  · rename_i name entries
    cases entries.find? name with
    | some destination => exact fun table => by cases table
    | none => exact ⟨outer rfl, name, rfl⟩
  · exact outer

end LayerMap

private theorem Chain.layerMap_outcome {K : Type} [Scalar K] {tables : Prop} {chain : Chain K}
    (plain : ∀ link ∈ chain.links, link.layerMap.isTable → tables) (limit : Option Nat) :
    Outcome (fun map => map.isTable → tables) (LayoutError.IsUnfamiliar tables)
      (chain.layerMap limit) := by
  have among : ∀ link ∈ chain.outermost limit, link ∈ chain.links := by
    intro link member
    cases limit with
    | none => exact member
    | some limit => exact List.mem_of_mem_take member
  refine Outcome.foldlM_keeps _ (fun link member below inner => ?_) (fun table => by cases table)
  exact LayerMap.compose_outcome inner (plain link (among link (List.mem_reverse.mp member)))

namespace Layout

variable {K : Type} {layout : Layout K} {tables : Prop}

/-- The layer maps that are stored: those of the children, and those of the stored references. -/
def layerMaps (layout : Layout K) : List LayerMap :=
  layout.nodes.entries.flatMap (fun entry => entry.2.children.map (·.2.layerMap)) ++
    layout.references.entries.map (·.2.layerMap)

/-- A target that is there, under a map that is no table unless there are tables. -/
structure Fits (layout : Layout K) (tables : Prop) (target : Target) (layerMap : LayerMap) : Prop where
  present : layout.contains target
  plain : layerMap.isTable → tables

/-- Every target is there, no way along targets leads back, and no stored map is a table unless there
are tables. -/
structure Stocked (layout : Layout K) (tables : Prop) : Prop where
  closed : layout.Closed
  acyclic : layout.Acyclic
  plain : ∀ map ∈ layout.layerMaps, map.isTable → tables

theorem Stocked.child (stocked : layout.Stocked tables) {key : NodeKey} {node : Node K}
    {child : String × Reference K} (found : layout.nodes.get? key = some node)
    (member : child ∈ node.children) : layout.Fits tables child.2.target child.2.layerMap where
  present := stocked.closed _ _ (.child found member)
  plain := stocked.plain _ (List.mem_append_left _ (List.mem_flatMap.mpr
    ⟨(key, node), Arena.mem_entries_iff.mpr found, List.mem_map.mpr ⟨child, member, rfl⟩⟩))

private theorem Stocked.stored (stocked : layout.Stocked tables) {key : ReferenceKey}
    {stored : Reference K}
    (found : layout.references.get? key = some stored) :
    layout.Fits tables stored.target stored.layerMap where
  present := stocked.closed _ _ (.stack found)
  plain := stocked.plain _ (List.mem_append_right _ (List.mem_map.mpr
    ⟨(key, stored), Arena.mem_entries_iff.mpr found, rfl⟩))

theorem Fits.node {key : NodeKey} {layerMap : LayerMap} (fits : layout.Fits tables (.node key) layerMap) :
    ∃ node, layout.node key = .ok node ∧ layout.nodes.get? key = some node := by
  obtain ⟨node, found⟩ := contains_node_iff.mp fits.present
  exact ⟨node, node_eq_ok_iff.mpr found, found⟩

private theorem Extends.closed {after before : Layout K} {added : Target}
    (extension : after.Extends before added) (closed : before.Closed) : after.Closed := by
  intro entry target step
  rcases extension.leads entry target step with earlier | ⟨_, present⟩
  · exact extension.kept target (closed entry target earlier)
  · exact extension.kept target present

private theorem closed_edit (closed : layout.Closed) {change : Edit K}
    (addition : change.isRemoval = false) :
    (layout.edit change).Closed := by
  cases change with
  | addNode draft =>
    cases added : layout.addNode draft with
    | error error => simpa [edit, added] using closed
    | ok result => simpa [edit, added] using (extends_addNode added).closed closed
  | addReference reference =>
    cases added : layout.addReference reference with
    | error error => simpa [edit, added] using closed
    | ok result => simpa [edit, added] using (extends_addReference added).closed closed
  | removeNode key => cases addition

private theorem closed_run (closed : layout.Closed) {edits : List (Edit K)}
    (additions : ∀ change ∈ edits, change.isRemoval = false) : (layout.run edits).Closed := by
  induction edits generalizing layout with
  | nil => exact closed
  | cons change rest ih =>
    obtain ⟨first, later⟩ := List.forall_mem_cons.mp additions
    exact ih (closed_edit closed first) later

/-- A layout that is made or loaded, and only added to since. -/
theorem Origin.stocked_run {start : Layout Float} (origin : start.Origin) {edits : List (Edit Float)}
    (additions : ∀ change ∈ edits, change.isRemoval = false)
    (plain : ∀ map ∈ (start.run edits).layerMaps, map.isTable → tables) :
    (start.run edits).Stocked tables := by
  have few : 0 + edits.countP Edit.isRemoval < Arena.lifespan := by
    have none : edits.countP Edit.isRemoval = 0 := by simpa [List.countP_eq_zero] using additions
    rw [none]
    decide
  exact ⟨closed_run origin.closed additions, (origin.sound.run edits few).acyclic, plain⟩

/-- A chain down to a node that is there, with no tables among the maps of its links. -/
structure Leading (layout : Layout K) (tables : Prop) (chain : Chain K) : Prop where
  present : layout.contains (.node chain.node)
  plain : ∀ link ∈ chain.links, link.layerMap.isTable → tables

private theorem follow_outcome (stocked : layout.Stocked tables) {allowance : Nat}
    {reference : Reference K}
    (fits : layout.Fits tables reference.target reference.layerMap) :
    Outcome (layout.Leading tables) (· = .endless) (layout.follow allowance reference) := by
  fun_induction layout.follow allowance reference with
  | case1 allowance reference key target =>
    exact ⟨target ▸ fits.present, List.forall_mem_singleton.mpr fits.plain⟩
  | case2 allowance reference key target error missing =>
    obtain ⟨stored, found⟩ := contains_reference_iff.mp (target ▸ fits.present)
    rw [reference_eq_ok_iff.mpr found] at missing
    cases missing
  | case3 reference key target inner found => exact rfl
  | case4 reference key target inner found allowance error failed ih =>
    have outcome := ih (stocked.stored (reference_eq_ok_iff.mp found))
    rw [failed] at outcome
    exact outcome
  | case5 reference key target inner found allowance chain followed ih =>
    have outcome := ih (stocked.stored (reference_eq_ok_iff.mp found))
    rw [followed] at outcome
    exact ⟨outcome.present, List.forall_mem_cons.mpr ⟨fits.plain, outcome.plain⟩⟩

private theorem exists_chain (stocked : layout.Stocked tables) {reference : Reference K}
    (fits : layout.Fits tables reference.target reference.layerMap) :
    ∃ chain, layout.chain reference = .ok chain ∧ layout.Leading tables chain := by
  have outcome : Outcome (layout.Leading tables) (· = .endless) (layout.chain reference) :=
    follow_outcome stocked fits
  have answers := (chain_ends stocked.acyclic reference).1
  cases result : layout.chain reference with
  | ok chain =>
    rw [result] at outcome
    exact ⟨chain, rfl, outcome⟩
  | error error =>
    rw [result] at outcome answers
    subst outcome
    exact answers.elim

theorem targetAt_fails_only (stocked : layout.Stocked tables) {reference : Reference K}
    (fits : layout.Fits tables reference.target reference.layerMap) (depth : Nat) :
    FailsOnly (fun error => ∃ max, error = .invalidDepth depth max)
      (layout.targetAt reference depth) := by
  obtain ⟨chain, followed, _⟩ := exists_chain stocked fits
  rw [targetAt, followed, ok_bind]
  cases depth with
  | zero => exact ⟨_, rfl⟩
  | succ before =>
    dsimp only
    cases chain.links[before]? with
    | some link => trivial
    | none => exact ⟨_, rfl⟩

theorem copy_fails_only (stocked : layout.Stocked tables) {reference : Reference K}
    (fits : layout.Fits tables reference.target reference.layerMap) :
    FailsOnly (fun error => ∃ depth, error = .copyStacked depth) (layout.copy reference) := by
  obtain ⟨chain, followed, _⟩ := exists_chain stocked fits
  have required : layout.require reference.target = .ok () := if_pos fits.present
  rw [copy, copyTo, depth, followed, ok_bind]
  change FailsOnly _ (if 1 < chain.links.length then _ else _)
  split
  · exact ⟨_, rfl⟩
  · rw [required]
    trivial

variable [Scalar K]

/-- A reference of which every target is there is walked down to its node. -/
theorem exists_walk (stocked : layout.Stocked tables) {reference : Reference K}
    (fits : layout.Fits tables reference.target reference.layerMap) :
    ∃ chain, layout.Leading tables chain ∧ layout.depth reference = .ok chain.links.length ∧
      layout.resolve reference = .ok chain.node ∧
      ∀ limit, layout.flatTransform reference limit = .ok (chain.transform limit) := by
  obtain ⟨chain, followed, leading⟩ := exists_chain stocked fits
  refine ⟨chain, leading, ?_, ?_, fun limit => ?_⟩
  · rw [depth, followed, ok_bind]
    rfl
  · rw [resolve, followed, ok_bind]
    rfl
  · rw [flatTransform, followed, ok_bind]
    rfl

theorem flatLayerMap_outcome (stocked : layout.Stocked tables) {reference : Reference K}
    (fits : layout.Fits tables reference.target reference.layerMap) (limit : Option Nat) :
    Outcome (fun map => map.isTable → tables) (LayoutError.IsUnfamiliar tables)
      (layout.flatLayerMap reference limit) := by
  obtain ⟨chain, followed, leading⟩ := exists_chain stocked fits
  rw [flatLayerMap, followed, ok_bind]
  exact Chain.layerMap_outcome leading.plain limit

private theorem placement_outcome (stocked : layout.Stocked tables) {reference : Reference K}
    (fits : layout.Fits tables reference.target reference.layerMap) :
    Outcome (fun placement => layout.Fits tables (.node placement.node) placement.layerMap)
      (LayoutError.IsUnfamiliar tables) (layout.placement reference) := by
  obtain ⟨chain, followed, leading⟩ := exists_chain stocked fits
  rw [placement, followed, ok_bind]
  exact (Chain.layerMap_outcome leading.plain none).bind fun _ plain => ⟨leading.present, plain⟩

theorem children_fails_only (stocked : layout.Stocked tables) {reference : Reference K}
    (fits : layout.Fits tables reference.target reference.layerMap) :
    FailsOnly (LayoutError.IsUnfamiliar tables) (layout.children reference) := by
  refine (placement_outcome stocked fits).bind fun placement leading => ?_
  obtain ⟨node, found, stored⟩ := leading.node
  rw [found, ok_bind]
  refine (Outcome.mapM (fun _ => True) _ fun child member => ?_).mono fun _ _ => trivial
  have inner := (stocked.child stored member).plain
  exact (LayerMap.compose_outcome inner leading.plain).bind fun _ _ => trivial

private theorem enter_outcome (stocked : layout.Stocked tables) {placement : Placement K}
    (fits : layout.Fits tables (.node placement.node) placement.layerMap)
    (geometry : LayerGeometry K) :
    Outcome (fun left => ∀ child ∈ left.1, layout.Fits tables (.node child.node) child.layerMap)
      (LayoutError.IsUnfamiliar tables) (layout.enter placement geometry) := by
  obtain ⟨node, found, stored⟩ := fits.node
  have deposited : FailsOnly (LayoutError.IsUnfamiliar tables) (placement.deposit node geometry) := by
    refine Outcome.foldlM_keeps _ (fun entry _ before _ => ?_) trivial
    refine (LayerMap.lookup_fails_only fits.plain entry.1).bind fun destination _ => ?_
    cases destination <;> trivial
  have below : Outcome
      (fun children => ∀ child ∈ children, layout.Fits tables (.node child.node) child.layerMap)
      (LayoutError.IsUnfamiliar tables) (layout.placementsBelow placement node) := by
    refine (Outcome.mapM (fun child => layout.Fits tables (.node child.node) child.layerMap) _
      fun child member => ?_).bind fun reversed lower child member =>
        lower child (List.mem_reverse.mp member)
    have inner := placement_outcome stocked (stocked.child stored (List.mem_reverse.mp member))
    refine inner.bind fun own leading => ?_
    exact (LayerMap.compose_outcome leading.plain fits.plain).bind fun _ plain => ⟨leading.present, plain⟩
  rw [enter, found, ok_bind]
  exact deposited.bind fun added _ => below.bind fun children lower => lower

private theorem visit_fails_only (stocked : layout.Stocked tables) (pending : List (Nat × Placement K))
    (geometry : LayerGeometry K)
    (fits : ∀ entry ∈ pending, layout.Fits tables (.node entry.2.node) entry.2.layerMap) :
    FailsOnly (fun error => error = .endless ∨ error.IsUnfamiliar tables)
      (layout.visit pending geometry) := by
  induction pending, geometry using layout.visit_induction with
  | nil geometry =>
    rw [visit_nil]
    trivial
  | skip depth placement rest geometry discards ih =>
    rw [visit_skip discards]
    exact ih (List.forall_mem_cons.mp fits).2
  | endless placement rest geometry kept =>
    rw [visit_endless kept]
    exact .inl rfl
  | enter depth placement rest geometry kept ih =>
    obtain ⟨first, others⟩ := List.forall_mem_cons.mp fits
    have outcome := enter_outcome stocked first geometry
    rw [visit_enter kept]
    cases entered : layout.enter placement geometry with
    | error error =>
      rw [entered] at outcome
      exact .inr outcome
    | ok left =>
      rw [entered] at outcome
      refine ih left.1 left.2 entered (List.forall_mem_append.mpr ⟨fun entry member => ?_, others⟩)
      obtain ⟨child, listed, rfl⟩ := List.mem_map.mp member
      exact outcome child listed

theorem flatten_fails_only (stocked : layout.Stocked tables) {reference : Reference K}
    (fits : layout.Fits tables reference.target reference.layerMap) :
    FailsOnly (LayoutError.IsUnfamiliar tables) (layout.flatten reference) := by
  have outcome : FailsOnly (fun error => error = .endless ∨ error.IsUnfamiliar tables)
      (layout.flatten reference) := by
    refine ((placement_outcome stocked fits).weaken (fun _ leading => leading)
      fun _ unfamiliar => .inr unfamiliar).bind fun root leading => ?_
    exact (visit_fails_only stocked [(layout.nodes.count + 1, root)] .empty
      (List.forall_mem_singleton.mpr leading)).bind fun _ _ => trivial
  -- The bounds of the walk are not reached, as there are no circles.
  refine (outcome.and (flatten_ends stocked.acyclic reference).1).weaken (fun _ _ => trivial) ?_
  rintro error ⟨rfl | unfamiliar, lookup⟩
  · exact lookup.elim
  · exact unfamiliar

theorem box_fails_only (stocked : layout.Stocked tables) {reference : Reference K}
    (fits : layout.Fits tables reference.target reference.layerMap) :
    FailsOnly (fun error => error = .emptyGeometry ∨ error.IsUnfamiliar tables)
      (layout.box reference) := by
  refine ((flatten_fails_only stocked fits).weaken (fun _ _ => trivial)
    fun _ unfamiliar => .inr unfamiliar).bind fun flattened _ => ?_
  cases flattened.geometry.box? with
  | some box => trivial
  | none => exact .inl rfl

end Layout

end MaskLayout
