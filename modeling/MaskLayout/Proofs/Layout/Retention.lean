import MaskLayout.Proofs.Layout.Runs
import MaskLayout.Proofs.Layout.Termination

namespace MaskLayout.Layout

variable {K : Type} {before after : Layout K} {start : Target}

/-- A layout still has the nodes that another one reaches from a start, and all of its references. -/
structure Retains (after before : Layout K) (start : Target) : Prop where
  node : ∀ key node, before.Reaches start (.node key) → before.nodes.get? key = some node →
    after.nodes.get? key = some node
  reference : ∀ key reference, before.references.get? key = some reference →
    after.references.get? key = some reference

/-- None of the edits removes a node that is reached from a start. -/
def Spares (layout : Layout K) (start : Target) (edits : List (Edit K)) : Prop :=
  ∀ key, .removeNode key ∈ edits → layout.contains (.node key) → ¬ layout.Reaches start (.node key)

/-- Nothing outside a list of entries is reached from within, if their targets are all listed. -/
theorem mem_of_reaches {layout : Layout K} {entries : List Target} {entry : Target}
    (reached : layout.Reaches start entry) (first : start ∈ entries)
    (complete : ∀ upper ∈ entries, ∀ targets ∈ (layout.targets upper).toOption,
      ∀ target ∈ targets, target ∈ entries) : entry ∈ entries := by
  induction reached with
  | refl => exact first
  | @tail upper lower _ step ih =>
    obtain ⟨targets, found, listed⟩ := targets_of_contains step.contains
    exact complete upper ih targets (mem_toOption_iff.mpr found) lower ((listed lower).mpr step)

theorem reaches_of_resolve {layout : Layout K} {reference : Reference K} {key : NodeKey}
    (resolved : layout.resolve reference = .ok key) : layout.Reaches reference.target (.node key) := by
  obtain ⟨chain, followed, same⟩ := bind_eq_ok_iff.mp resolved
  rw [← Except.ok.inj same]
  exact follow_leads followed

theorem Retains.refl (layout : Layout K) (start : Target) : layout.Retains layout start :=
  ⟨fun _ _ _ found => found, fun _ _ found => found⟩

/-- What one edit keeps. -/
theorem Retains.edit (retains : after.Retains before start) {change : Edit K}
    (spares : before.Spares start [change]) : (after.edit change).Retains before start := by
  cases change with
  | addNode draft =>
    cases added : after.addNode draft with
    | error error => simpa [Layout.edit, added] using retains
    | ok result =>
      obtain ⟨_, same, _⟩ := addNode_eq_ok added
      simp only [Layout.edit, added, same]
      exact ⟨fun key node reached found =>
        Arena.get?_insert_of_get? (retains.node key node reached found) draft.node, retains.reference⟩
  | addReference reference =>
    cases added : after.addReference reference with
    | error error => simpa [Layout.edit, added] using retains
    | ok result =>
      obtain ⟨_, same, _⟩ := addReference_eq_ok added
      simp only [Layout.edit, added, same]
      exact ⟨retains.node, fun key stored found =>
        Arena.get?_insert_of_get? (retains.reference key stored found) reference⟩
  | removeNode removed =>
    cases taken : after.removeNode? removed with
    | none => simpa [Layout.edit, taken] using retains
    | some result =>
      obtain ⟨rest, remaining, same⟩ := removeNode?_eq_some taken
      simp only [Layout.edit, taken, same]
      refine ⟨fun key node reached found => ?_, retains.reference⟩
      have different : key ≠ removed := by
        intro again
        subst again
        exact spares key (by simp) (contains_node_iff.mpr ⟨node, found⟩) reached
      rw [(Arena.get?_remove remaining key).2, if_neg different]
      exact retains.node key node reached found

theorem Retains.run (retains : after.Retains before start) {edits : List (Edit K)}
    (spares : before.Spares start edits) : (after.run edits).Retains before start := by
  induction edits generalizing after with
  | nil => exact retains
  | cons change rest ih =>
    have first : before.Spares start [change] := fun key member =>
      spares key (List.mem_cons.mpr (.inl (List.mem_singleton.mp member)))
    have later : before.Spares start rest := fun key member =>
      spares key (List.mem_cons_of_mem _ member)
    exact ih (retains.edit first) later

namespace Retains

variable (retains : after.Retains before start)

include retains

theorem upheld_node {key : NodeKey} (reached : before.Reaches start (.node key)) :
    Upheld (before.node key) (after.node key) := by
  intro node found
  exact node_eq_ok_iff.mpr (retains.node key node reached (node_eq_ok_iff.mp found))

theorem contains {key : NodeKey} (reached : before.Reaches start (.node key))
    (present : before.contains (.node key)) : after.contains (.node key) := by
  obtain ⟨node, found⟩ := contains_node_iff.mp present
  exact contains_node_iff.mpr ⟨node, retains.node key node reached found⟩

private theorem count_references : before.references.count ≤ after.references.count := by
  rw [← Arena.length_keys]
  refine Arena.length_le_count before.references.nodup_keys fun key member => ?_
  obtain ⟨stored, found⟩ := Arena.contains_iff.mp (Arena.mem_keys_iff.mp member)
  exact Arena.contains_iff.mpr ⟨stored, retains.reference key stored found⟩

/-- Stacks of references are never touched. -/
theorem upheld_follow {fewer more : Nat} (enough : fewer ≤ more) (reference : Reference K) :
    Upheld (before.follow fewer reference) (after.follow more reference) := by
  intro chain success
  fun_induction before.follow fewer reference generalizing more chain with
  | case1 fewer reference key target =>
    unfold follow
    simpa only [target] using success
  | case2 | case3 | case4 => cases success
  | case5 reference key target inner found fewer chain' followed ih =>
    obtain ⟨left, rfl⟩ : ∃ left, more = left + 1 := ⟨more - 1, by omega⟩
    have stored := reference_eq_ok_iff.mpr (retains.reference key inner (reference_eq_ok_iff.mp found))
    have further := ih (Nat.le_of_succ_le_succ enough) chain' followed
    unfold follow
    simpa only [target, stored, further] using success

private theorem upheld_chain (reference : Reference K) :
    Upheld (before.chain reference) (after.chain reference) :=
  retains.upheld_follow retains.count_references reference

theorem upheld_resolve (reference : Reference K) :
    Upheld (before.resolve reference) (after.resolve reference) :=
  (retains.upheld_chain reference).then _

theorem upheld_flatLayerMap (reference : Reference K) (limit : Option Nat) :
    Upheld (before.flatLayerMap reference limit) (after.flatLayerMap reference limit) :=
  (retains.upheld_chain reference).then _

variable [Scalar K]

theorem upheld_flatTransform (reference : Reference K) (limit : Option Nat) :
    Upheld (before.flatTransform reference limit) (after.flatTransform reference limit) :=
  (retains.upheld_chain reference).then _

private theorem upheld_placement (reference : Reference K) :
    Upheld (before.placement reference) (after.placement reference) :=
  (retains.upheld_chain reference).then _

private theorem upheld_enter {placement : Placement K}
    (reached : before.Reaches start (.node placement.node))
    (geometry : LayerGeometry K) :
    Upheld (before.enter placement geometry) (after.enter placement geometry) := by
  refine (retains.upheld_node reached).bind fun node _ => (Upheld.refl _).bind fun added _ => ?_
  have below : Upheld (before.placementsBelow placement node) (after.placementsBelow placement node) :=
    (Upheld.mapM fun child _ => (retains.upheld_placement child.2).then _).then _
  exact below.then _

end Retains

variable [Scalar K]

omit [Scalar K] in
/-- A pending placement that is reached, with depth left for every node that is kept and not passed on
the way to it. -/
structure Pending (after before : Layout K) (start : Target) (entry : Nat × Placement K) : Prop where
  reached : before.Reaches start (.node entry.2.node)
  room : ∃ passed : List NodeKey, passed.Nodup ∧
    (∀ key ∈ passed, after.contains (.node key) ∧ before.Below (.node entry.2.node) (.node key)) ∧
    passed.length + entry.1 = after.nodes.count + 1

omit [Scalar K] in
private theorem Pending.exists_depth {entry : Nat × Placement K}
    (pending : after.Pending before start entry) :
    ∃ depth, entry.1 = depth + 1 := by
  obtain ⟨passed, distinct, above, total⟩ := pending.room
  have few := Arena.length_le_count distinct fun key member => (above key member).1
  exact ⟨entry.1 - 1, by omega⟩

omit [Scalar K] in
private theorem Pending.child (acyclic : before.Acyclic) {depth : Nat} {placement below : Placement K}
    (pending : after.Pending before start (depth + 1, placement))
    (kept : after.contains (.node placement.node))
    (lower : before.Below (.node below.node) (.node placement.node)) :
    after.Pending before start (depth, below) := by
  obtain ⟨passed, distinct, above, total⟩ := pending.room
  refine ⟨pending.reached.trans lower.to_reflTransGen, placement.node :: passed, ?_, ?_, ?_⟩
  · exact List.nodup_cons.mpr ⟨fun again => acyclic _ (above _ again).2, distinct⟩
  · exact List.forall_mem_cons.mpr ⟨⟨kept, lower⟩,
      fun key member => ⟨(above key member).1, (above key member).2.trans lower⟩⟩
  · simp only [List.length_cons] at total ⊢
    omega

/-- The same placements may be pending with other depths, as the layout may have become smaller. -/
theorem Retains.visit_eq_ok (retains : after.Retains before start) (acyclic : before.Acyclic)
    {first second : List (Nat × Placement K)} {geometry result : LayerGeometry K}
    (success : before.visit first geometry = .ok result) (same : second.map (·.2) = first.map (·.2))
    (pending : ∀ entry ∈ second, after.Pending before start entry) :
    after.visit second geometry = .ok result := by
  induction first, geometry using before.visit_induction generalizing second with
  | nil geometry =>
    rw [List.map_eq_nil_iff.mp same, visit_nil]
    rwa [visit_nil] at success
  | skip depth placement rest geometry discards ih =>
    obtain ⟨⟨other, _⟩, others, rfl, rfl, behind⟩ := List.map_eq_cons_iff.mp same
    rw [visit_skip discards] at success ⊢
    exact ih success behind (List.forall_mem_cons.mp pending).2
  | endless placement rest geometry kept =>
    rw [visit_endless kept] at success
    cases success
  | enter depth placement rest geometry kept ih =>
    obtain ⟨⟨other, _⟩, others, rfl, rfl, behind⟩ := List.map_eq_cons_iff.mp same
    obtain ⟨here, later⟩ := List.forall_mem_cons.mp pending
    obtain ⟨left, rfl⟩ := here.exists_depth
    rw [visit_enter kept] at success ⊢
    obtain ⟨⟨children, added⟩, entered, rest'⟩ := bind_eq_ok_iff.mp success
    rw [retains.upheld_enter here.reached geometry _ entered, ok_bind]
    obtain ⟨node, found, _⟩ := bind_eq_ok_iff.mp entered
    have present := retains.contains here.reached
      (contains_node_iff.mpr ⟨node, node_eq_ok_iff.mp found⟩)
    refine ih children added entered rest' (by simp [behind, Function.comp_def]) ?_
    refine List.forall_mem_append.mpr ⟨fun entry member => ?_, later⟩
    obtain ⟨child, listed, rfl⟩ := List.mem_map.mp member
    exact here.child acyclic present (below_of_enter entered listed)

theorem Retains.upheld_flatten (retains : after.Retains before start) (acyclic : before.Acyclic)
    {reference : Reference K} (reached : before.Reaches start reference.target) :
    Upheld (before.flatten reference) (after.flatten reference) := by
  refine (retains.upheld_placement reference).bind fun root placed => ?_
  have visited : Upheld (before.visit [(before.nodes.count + 1, root)] .empty)
      (after.visit [(after.nodes.count + 1, root)] .empty) := by
    intro geometry success
    have down := reaches_of_resolve (placement_eq_ok placed).1
    have pending : after.Pending before start (after.nodes.count + 1, root) :=
      ⟨reached.trans down, [], .nil, by simp, by simp⟩
    exact retains.visit_eq_ok acyclic success rfl (List.forall_mem_singleton.mpr pending)
  exact visited.then _

theorem Retains.upheld_box (retains : after.Retains before start) (acyclic : before.Acyclic)
    {reference : Reference K} (reached : before.Reaches start reference.target) :
    Upheld (before.box reference) (after.box reference) :=
  (retains.upheld_flatten acyclic reached).then _

end MaskLayout.Layout
