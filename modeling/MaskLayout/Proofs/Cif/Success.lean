import MaskLayout.Proofs.Cif.Calls
import MaskLayout.Proofs.Cif.Marks

namespace MaskLayout.Cif

open BreadthFirst

variable {K : Type} [Scalar K] {layout : Layout K} {settings : Settings K}

omit [Scalar K] in
/-- Only layers with something drawn on them are looked up. -/
theorem exists_draw_iff {layerMap : LayerMap} {geometry : LayerGeometry K} :
    (∃ runs, draw layerMap geometry = .ok runs) ↔
      ∀ layer ∈ geometry.marks, ∃ destination, layerMap.lookup layer = .ok destination := by
  have each (entry : String × List (Polygon K)) :
      (∃ runs, drawLayer layerMap entry.1 entry.2 = .ok runs) ↔
        ((entry.2.filter fun polygon => !polygon.isEmpty) ≠ [] →
          ∃ destination, layerMap.lookup entry.1 = .ok destination) := by
    by_cases blank : (entry.2.filter fun polygon => !polygon.isEmpty) = []
    · simp [drawLayer, blank]
    · simp only [drawLayer, List.isEmpty_iff, blank, ↓reduceIte, ne_eq, not_false_eq_true,
        forall_const]
      cases layerMap.lookup entry.1 with
      | error error => simp
      | ok destination => cases destination <;> simp
  have drawn : (∃ runs, draw layerMap geometry = .ok runs) ↔
      ∃ parts, geometry.entries.mapM (fun entry => drawLayer layerMap entry.1 entry.2) = .ok parts := by
    constructor
    · intro success
      obtain ⟨runs, made⟩ := success
      obtain ⟨parts, found, _⟩ := bind_eq_ok_iff.mp made
      exact ⟨parts, found⟩
    · intro success
      obtain ⟨parts, found⟩ := success
      exact ⟨parts.flatten, bind_eq_ok_iff.mpr ⟨parts, found, rfl⟩⟩
  rw [drawn, exists_mapM_iff]
  constructor
  · intro success layer marked
    obtain ⟨entry, listed, rfl, visible⟩ := LayerGeometry.mem_marks_iff.mp marked
    exact (each entry).mp (success entry listed) visible
  · intro known entry listed
    exact (each entry).mpr fun visible =>
      known entry.1 (LayerGeometry.mem_marks_iff.mpr ⟨entry, listed, rfl, visible⟩)

private theorem standsFor_eq_ok_iff_parts {reference : Reference K} {fragment : Fragment} :
    standsFor layout reference = .ok fragment ↔ layout.resolve reference = .ok fragment.node ∧
      layout.flatLayerMap reference none = .ok fragment.layerMap := by
  rw [standsFor_eq_ok_iff]
  constructor
  · intro stands
    obtain ⟨placement, placed, rfl⟩ := stands
    obtain ⟨resolved, _, mapped⟩ := Layout.placement_eq_ok placed
    exact ⟨resolved, mapped⟩
  · intro parts
    obtain ⟨node, layerMap⟩ := fragment
    obtain ⟨resolved, mapped⟩ := parts
    obtain ⟨chain, followed, same⟩ := bind_eq_ok_iff.mp resolved
    obtain ⟨other, again, composed⟩ := bind_eq_ok_iff.mp mapped
    cases Except.ok.inj (followed.symm.trans again)
    cases Except.ok.inj same
    exact ⟨⟨chain.node, chain.transform none, layerMap⟩,
      bind_eq_ok_iff.mpr ⟨chain, followed, bind_eq_ok_iff.mpr ⟨layerMap, composed, rfl⟩⟩, rfl⟩

theorem callee?_eq_some_iff {layerMap : LayerMap} {reference : Reference K} {callee : Fragment} :
    callee? layout layerMap reference = some callee ↔
      layout.isNative reference = true ∧ reach layout layerMap reference = .ok callee := by
  constructor
  · intro found
    obtain ⟨resolved, native, inner, mapped, fits⟩ := callee?_eq_some found
    have stands : standsFor layout reference = .ok ⟨callee.node, inner⟩ :=
      standsFor_eq_ok_iff_parts.mpr ⟨resolved, mapped⟩
    exact ⟨native, reach_eq_ok_iff.mpr ⟨_, stands, rfl, fits⟩⟩
  · intro parts
    obtain ⟨native, reached⟩ := parts
    obtain ⟨inner, stands, same, fits⟩ := reach_eq_ok_iff.mp reached
    obtain ⟨resolved, mapped⟩ := standsFor_eq_ok_iff_parts.mp stands
    simp only [callee?, resolved, mapped, fits, native, same, ↓reduceIte]

theorem mem_callees_iff {fragment callee : Fragment} {node : Node K}
    (found : layout.node fragment.node = .ok node) : callee ∈ callees layout fragment ↔
      ∃ child ∈ node.children, layout.isNative child.2 = true ∧
        reach layout fragment.layerMap child.2 = .ok callee := by
  simp only [callees, found, List.mem_filterMap, callee?_eq_some_iff]

/-- Whether and how a reference is called does not depend on the settings. -/
theorem edge_eq_call_iff {layerMap : LayerMap} {name : String} {reference : Reference K}
    {fragment : Fragment} {transform : Transform K} :
    edge layout settings layerMap name reference = .ok (.call fragment transform) ↔
      layout.flatTransform reference none = .ok transform ∧ transform.isRigid = true ∧
        reach layout layerMap reference = .ok fragment := by
  constructor
  · intro success
    rcases edge_cases success with ⟨_, _, inner, same, placed, rigid, resolved, mapped, fits⟩ |
      ⟨_, _, _, same, _⟩
    · cases same
      have stands : standsFor layout reference = .ok ⟨fragment.node, inner⟩ :=
        standsFor_eq_ok_iff_parts.mpr ⟨resolved, mapped⟩
      exact ⟨placed, rigid, reach_eq_ok_iff.mpr ⟨_, stands, rfl, fits⟩⟩
    · cases same
  · intro parts
    obtain ⟨placed, rigid, reached⟩ := parts
    obtain ⟨inner, stands, same, fits⟩ := reach_eq_ok_iff.mp reached
    obtain ⟨resolved, mapped⟩ := standsFor_eq_ok_iff_parts.mp stands
    simp only [edge, placed, rigid, resolved, mapped, fits, same, ofLayout_ok, ok_bind, ↓reduceIte]
    rfl

/-- A native reference is called if it can be reached. -/
theorem edge_of_reach {layerMap : LayerMap} {name : String} {reference : Reference K}
    {lower : Fragment} (native : layout.isNative reference = true)
    (reached : reach layout layerMap reference = .ok lower) :
    ∃ transform, edge layout settings layerMap name reference = .ok (.call lower transform) := by
  unfold Layout.isNative at native
  split at native
  · rename_i transform placed
    exact ⟨transform, edge_eq_call_iff.mpr ⟨placed, native, reached⟩⟩
  · cases native

theorem exists_call_iff {layerMap : LayerMap} {name : String} {reference : Reference K}
    (native : layout.isNative reference = true) :
    (∃ made, edge layout settings layerMap name reference = .ok made) ↔
      ∃ lower, reach layout layerMap reference = .ok lower := by
  constructor
  · intro success
    obtain ⟨made, built⟩ := success
    cases made with
    | call fragment transform => exact ⟨fragment, (edge_eq_call_iff.mp built).2.2⟩
    | inline runs =>
      have foreign := edge_isInline built
      rw [native] at foreign
      cases foreign
  · intro success
    obtain ⟨lower, reached⟩ := success
    obtain ⟨transform, built⟩ := edge_of_reach native reached
    exact ⟨_, built⟩

theorem exists_inline_iff {layerMap : LayerMap} {name : String} {reference : Reference K}
    (lenient : settings.strict = false) (foreign : layout.isNative reference = false) :
    (∃ made, edge layout settings layerMap name reference = .ok made) ↔
      ∃ flattened, layout.flatten reference = .ok flattened ∧
        ∃ runs, draw layerMap flattened.geometry = .ok runs := by
  constructor
  · intro success
    obtain ⟨made, built⟩ := success
    rcases edge_cases built with ⟨_, transform, _, _, placed, rigid, _⟩ |
      ⟨runs, _, flattened, _, _, _, _, flattens, drawn⟩
    · simp [Layout.isNative, placed, rigid] at foreign
    · exact ⟨flattened, flattens, runs, drawn⟩
  · intro success
    obtain ⟨flattened, flattens, runs, drawn⟩ := success
    obtain ⟨placement, placed, _⟩ := bind_eq_ok_iff.mp flattens
    have moved := (Layout.placement_eq_ok placed).2.1
    simp only [Layout.isNative, moved] at foreign
    refine ⟨.inline runs, ?_⟩
    simp [edge, moved, foreign, lenient, flattens, drawn, ofLayout, Except.mapError, bind, Except.bind,
      pure, Except.pure]

theorem exists_body_iff {fragment : Fragment} :
    (∃ made, body layout settings fragment = .ok made) ↔
      ∃ node, layout.node fragment.node = .ok node ∧
        (∃ runs, draw fragment.layerMap node.geometry = .ok runs) ∧
        ∀ child ∈ node.children, ∃ made,
          edge layout settings fragment.layerMap child.1 child.2 = .ok made := by
  constructor
  · intro success
    obtain ⟨made, built⟩ := success
    obtain ⟨node, found, drawn, edges⟩ := body_eq_ok built
    exact ⟨node, found, ⟨_, drawn⟩, exists_mapM_iff.mp ⟨_, mapM_eq_ok_iff.mpr edges⟩⟩
  · intro parts
    obtain ⟨node, found, ⟨runs, drawn⟩, each⟩ := parts
    obtain ⟨edges, made⟩ := exists_mapM_iff.mpr each
    exact ⟨⟨runs, edges⟩, body_eq_ok_iff.mpr ⟨node, found, drawn, mapM_eq_ok_iff.mp made⟩⟩

/-- A pass succeeds if the bodies of what is pending do. -/
theorem exists_pass (defined : Defined K) {pending : List Fragment}
    (bodies : ∀ fragment ∈ pending, ∃ made, body layout settings fragment = .ok made) :
    ∃ after, pass layout settings defined pending = .ok after := by
  unfold pass
  generalize (defined, ([] : List Fragment)) = state
  induction pending generalizing state with
  | nil => exact ⟨state, rfl⟩
  | cons fragment rest ih =>
    obtain ⟨⟨made, first⟩, others⟩ := List.forall_mem_cons.mp bodies
    have step : ∃ next, define layout settings state fragment = .ok next := by
      unfold define
      split
      · exact ⟨state, rfl⟩
      · exact ⟨_, bind_eq_ok_iff.mpr ⟨made, first, rfl⟩⟩
    obtain ⟨next, taken⟩ := step
    obtain ⟨after, later⟩ := ih others next
    exact ⟨after, by rw [List.foldlM_cons]; exact bind_eq_ok_iff.mpr ⟨next, taken, later⟩⟩

theorem reaches_of_walk {root fragment : Fragment} {length : Nat}
    (way : Walk (callees layout) root length fragment) :
    layout.Reaches (.node root.node) (.node fragment.node) := by
  induction way with
  | start => exact .refl
  | step way called ih => exact ih.trans (below_of_callees called).to_reflTransGen

/-- The nodes that calls lead through on the way to a fragment. -/
theorem exists_passed (acyclic : layout.Acyclic) {root fragment : Fragment} {length : Nat}
    (way : Walk (callees layout) root length fragment) :
    ∃ passed : List NodeKey, passed.length = length ∧ passed.Nodup ∧
      ∀ key ∈ passed, layout.Below (.node fragment.node) (.node key) ∧
        layout.Reaches (.node root.node) (.node key) := by
  induction way with
  | start => exact ⟨[], rfl, .nil, by simp⟩
  | @step length item other way called ih =>
    obtain ⟨passed, total, distinct, above⟩ := ih
    have lower := below_of_callees called
    refine ⟨item.node :: passed, by simp [total], ?_, ?_⟩
    · exact List.nodup_cons.mpr ⟨fun again => acyclic _ (above _ again).1, distinct⟩
    · exact List.forall_mem_cons.mpr ⟨⟨lower, reaches_of_walk way⟩,
        fun key member => ⟨(above key member).1.trans lower, (above key member).2⟩⟩

/-- A way is shorter than any store is large that has the nodes that are reached. -/
theorem length_lt_count_of_contains (acyclic : layout.Acyclic) {root fragment : Fragment} {length : Nat}
    (way : Walk (callees layout) root length fragment) (present : layout.contains (.node fragment.node))
    {other : Layout K} (kept : ∀ key, layout.Reaches (.node root.node) (.node key) →
      layout.contains (.node key) → other.contains (.node key)) : length < other.nodes.count := by
  obtain ⟨passed, total, distinct, above⟩ := exists_passed acyclic way
  have fresh : fragment.node ∉ passed := fun again => acyclic _ (above _ again).1
  have few := Arena.length_le_count (List.nodup_cons.mpr ⟨fresh, distinct⟩)
    (List.forall_mem_cons.mpr ⟨kept _ (reaches_of_walk way) present,
      fun key member => kept key (above key member).2 (above key member).1.contains⟩)
  rw [List.length_cons, total] at few
  exact few

private theorem length_lt_count (acyclic : layout.Acyclic) {root fragment : Fragment} {length : Nat}
    (way : Walk (callees layout) root length fragment) {node : Node K}
    (found : layout.node fragment.node = .ok node) : length < layout.nodes.count :=
  length_lt_count_of_contains acyclic way
    (Layout.contains_node_iff.mpr ⟨node, Layout.node_eq_ok_iff.mp found⟩) fun _ _ present => present

/-- What is pending after a pass is one call further from the root. -/
theorem level_of_pass {root : Fragment} {distance : Nat} {defined extended : Defined K}
    {pending later : List Fragment}
    (level : Level (callees layout) root distance defined.fragments pending)
    (passed : pass layout settings defined pending = .ok (extended, later)) :
    Level (callees layout) root (distance + 1) extended.fragments later := by
  obtain ⟨added, grown, _, order, collected⟩ := pass_eq_ok passed
  simp only [List.nil_append] at grown order collected
  have next := level.sweep
  rwa [← order, ← Defined.fragments_append, ← grown, ← collected] at next

/-- A pass that defines something begins less far from the root than there are nodes. -/
theorem lt_count_of_pass (acyclic : layout.Acyclic) {root : Fragment} {distance : Nat}
    {defined extended : Defined K} {pending later : List Fragment}
    (level : Level (callees layout) root distance defined.fragments pending)
    (passed : pass layout settings defined pending = .ok (extended, later))
    (further : extended.length ≠ defined.length) : distance < layout.nodes.count := by
  obtain ⟨added, grown, made, order, _⟩ := pass_eq_ok passed
  simp only at grown order
  obtain ⟨entry, member⟩ : ∃ entry, entry ∈ added := by
    refine List.exists_mem_of_ne_nil _ fun none => further ?_
    rw [grown, none, List.append_nil]
  have fresh : entry.1 ∈ news defined.fragments pending := order ▸ List.mem_map_of_mem member
  obtain ⟨node, found, _⟩ := body_eq_ok (made entry member)
  exact length_lt_count acyclic (level.walk entry.1 (mem_news.mp fresh).1) found

private theorem passes_stop {defined extended : Defined K} {pending later : List Fragment}
    (passed : pass layout settings defined pending = .ok (extended, later))
    (stopped : extended.length = defined.length) (allowance : Nat) :
    passes layout settings allowance defined pending = .ok (extended, 1) := by
  unfold passes
  rw [passed]
  exact if_pos stopped

private theorem passes_further {defined extended : Defined K} {pending later : List Fragment}
    (passed : pass layout settings defined pending = .ok (extended, later))
    (further : extended.length ≠ defined.length) (allowance : Nat) :
    passes layout settings (allowance + 1) defined pending = (do
      let (all, count) ← passes layout settings allowance extended later
      return (all, count + 1)) := by
  rw [passes.eq_def, passed]
  exact if_neg further

/-- There are enough passes to get to every fragment, if the bodies succeed. -/
theorem exists_passes (acyclic : layout.Acyclic) {root : Fragment}
    (bodies : ∀ length fragment, Walk (callees layout) root length fragment →
      ∃ made, body layout settings fragment = .ok made)
    {allowance distance : Nat} {defined : Defined K} {pending : List Fragment}
    (level : Level (callees layout) root distance defined.fragments pending)
    (total : distance + allowance = layout.nodes.count) :
    ∃ result, passes layout settings allowance defined pending = .ok result := by
  induction allowance generalizing distance defined pending with
  | zero =>
    obtain ⟨⟨extended, later⟩, passed⟩ := exists_pass defined fun fragment member =>
      bodies distance fragment (level.walk fragment member)
    by_cases stopped : extended.length = defined.length
    · exact ⟨_, passes_stop passed stopped 0⟩
    · have near := lt_count_of_pass acyclic level passed stopped
      omega
  | succ allowance ih =>
    obtain ⟨⟨extended, later⟩, passed⟩ := exists_pass defined fun fragment member =>
      bodies distance fragment (level.walk fragment member)
    by_cases stopped : extended.length = defined.length
    · exact ⟨_, passes_stop passed stopped (allowance + 1)⟩
    · obtain ⟨all, followed⟩ := ih (level_of_pass level passed) (by omega)
      rw [passes_further passed stopped, followed]
      exact ⟨_, rfl⟩

/-- An outline succeeds exactly when every body that it needs does. -/
theorem exists_outline_iff (acyclic : layout.Acyclic) {root : Fragment} :
    (∃ result, outline layout settings root = .ok result) ↔
      ∀ length fragment, Walk (callees layout) root length fragment →
        ∃ made, body layout settings fragment = .ok made := by
  constructor
  · intro success length fragment way
    obtain ⟨⟨defined, passes⟩, outlined⟩ := success
    obtain ⟨sweeps, made⟩ := outline_eq_ok outlined
    obtain ⟨entry, listed, rfl⟩ := List.mem_map.mp
      ((sweeps.mem_iff (Level.start _ root) fragment).mpr ⟨length, way⟩)
    exact ⟨entry.2, made entry listed⟩
  · intro bodies
    have start : Level (callees layout) root 0 (Defined.fragments ([] : Defined K)) [root] :=
      .start _ root
    exact exists_passes acyclic bodies start (Nat.zero_add _)

private theorem Defined.Made.ext {defined other : Defined K} (made : defined.Made layout settings)
    (twin : other.Made layout settings) (same : defined.fragments = other.fragments) :
    defined = other := by
  induction defined generalizing other with
  | nil => exact (List.map_eq_nil_iff.mp same.symm).symm
  | cons entry rest ih =>
    cases other with
    | nil => cases same
    | cons first others =>
      obtain ⟨key, later⟩ := List.cons.inj same
      obtain ⟨here, behind⟩ := List.forall_mem_cons.mp made
      obtain ⟨there, further⟩ := List.forall_mem_cons.mp twin
      dsimp only at key
      rw [← key] at there
      rw [Prod.ext key (Except.ok.inj (here.symm.trans there)), ih behind further later]

private theorem passes_count_le {allowance count : Nat} {defined all : Defined K}
    {pending : List Fragment}
    (success : passes layout settings allowance defined pending = .ok (all, count)) :
    count ≤ allowance + 1 := by
  fun_induction passes layout settings allowance defined pending generalizing count with
  | case1 | case3 => cases success
  | case2 =>
    obtain ⟨rfl, rfl⟩ := Prod.mk.inj (Except.ok.inj success)
    exact Nat.le_add_left _ _
  | case4 defined pending extended later passed further allowance ih =>
    obtain ⟨⟨rest, rounds⟩, followed, same⟩ := bind_eq_ok_iff.mp success
    obtain ⟨rfl, rfl⟩ := Prod.mk.inj (Except.ok.inj same)
    exact Nat.succ_le_succ (ih followed)

/-- A pass does what a sweep does, if the bodies of what is pending succeed. -/
theorem exists_pass_of_bodies {defined : Defined K} (made : defined.Made layout settings)
    {pending : List Fragment}
    (bodies : ∀ fragment ∈ pending, ∃ made, body layout settings fragment = .ok made) :
    ∃ extended later, pass layout settings defined pending = .ok (extended, later) ∧
      extended.Made layout settings ∧
      extended.fragments = defined.fragments ++ news defined.fragments pending ∧
      later = (news defined.fragments pending).flatMap (callees layout) := by
  obtain ⟨⟨extended, later⟩, passed⟩ := exists_pass defined bodies
  obtain ⟨added, grown, new, order, collected⟩ := pass_eq_ok passed
  simp only [List.nil_append] at grown order collected
  refine ⟨extended, later, passed, ?_, ?_, by rw [collected, order]⟩
  · rw [grown]
    exact List.forall_mem_append.mpr ⟨made, new⟩
  · rw [grown, Defined.fragments_append, order]

/-- The passes go through with the sweeps of a search, if there are enough of them and each fragment
that is found has a body. -/
theorem passes_of_sweeps {known pending found : List Fragment} {count : Nat}
    (sweeps : Sweeps (callees layout) known pending found count) {all : Defined K}
    (finished : all.Made layout settings) (goal : all.fragments = found) {defined : Defined K}
    (made : defined.Made layout settings) (start : defined.fragments = known) {allowance : Nat}
    (enough : count ≤ allowance + 1) :
    passes layout settings allowance defined pending = .ok (all, count) := by
  have bodies {before now : List Fragment} {rounds : Nat}
      (left : Sweeps (callees layout) before now found rounds) :
      ∀ fragment ∈ now, ∃ made, body layout settings fragment = .ok made := by
    intro fragment member
    obtain ⟨entry, listed, rfl⟩ := List.mem_map.mp (goal ▸ left.mem_of_pending member)
    exact ⟨entry.2, finished entry listed⟩
  induction sweeps generalizing defined allowance with
  | @last known pending nothing =>
    obtain ⟨extended, later, passed, longer, order, _⟩ :=
      exists_pass_of_bodies made (bodies (.last nothing))
    rw [start, nothing, List.append_nil] at order
    cases longer.ext finished (order.trans goal.symm)
    have stopped : all.length = defined.length := by
      rw [← Defined.length_fragments, order, ← start, Defined.length_fragments]
    exact passes_stop passed stopped allowance
  | @sweep known pending found count something rest ih =>
    obtain ⟨extended, later, passed, longer, order, rfl⟩ :=
      exists_pass_of_bodies made (bodies (.sweep something rest))
    rw [start] at order passed
    have further : extended.length ≠ defined.length := by
      have new := List.length_pos_iff.mpr something
      have before : defined.length = known.length := by rw [← start, Defined.length_fragments]
      have after : extended.length = known.length + (news known pending).length := by
        rw [← Defined.length_fragments, order, List.length_append]
      omega
    have positive := rest.count_pos
    obtain ⟨fewer, rfl⟩ : ∃ fewer, allowance = fewer + 1 := ⟨allowance - 1, by omega⟩
    rw [passes_further passed further, ih goal longer order (by omega) bodies]
    rfl

/-- An outline has the one result that a search by sweeps and the bodies determine. -/
theorem outline_eq_ok_iff {root : Fragment} {defined : Defined K} {count : Nat} :
    outline layout settings root = .ok (defined, count) ↔
      Sweeps (callees layout) [] [root] defined.fragments count ∧ defined.Made layout settings ∧
        count ≤ layout.nodes.count + 1 := by
  constructor
  · intro outlined
    obtain ⟨sweeps, made⟩ := outline_eq_ok outlined
    exact ⟨sweeps, made, passes_count_le outlined⟩
  · intro parts
    obtain ⟨sweeps, made, few⟩ := parts
    exact passes_of_sweeps sweeps made rfl (List.forall_mem_nil _) rfl few

end MaskLayout.Cif
