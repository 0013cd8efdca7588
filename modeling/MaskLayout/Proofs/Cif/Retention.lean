import MaskLayout.Proofs.Cif.Depiction
import MaskLayout.Proofs.Cif.Strictness
import MaskLayout.Proofs.Layout.Retention

/-!
Compilations read of a layout what lies below their subject. The search goes through the same fragments
as long as these have the same bodies, and the passes that were needed before are still allowed, since
the nodes on the way to the farthest fragment are all kept.
-/
namespace MaskLayout

variable {K : Type}

private theorem Upheld.ofLayout {α : Type} {first second : Except LayoutError α}
    (upheld : Upheld first second) :
    Upheld (Cif.ofLayout first : Except (Cif.CifError K) α) (Cif.ofLayout second) :=
  fun value success => Cif.ofLayout_eq_ok_iff.mpr (upheld value (Cif.ofLayout_eq_ok_iff.mp success))

namespace Cif

open BreadthFirst

variable [Scalar K] {before after : Layout K} {start : Target}

private theorem upheld_edge (retains : after.Retains before start) (acyclic : before.Acyclic)
    (settings : Settings K) (layerMap : LayerMap) (name : String) {reference : Reference K}
    (reached : before.Reaches start reference.target) :
    Upheld (edge before settings layerMap name reference)
      (edge after settings layerMap name reference) := by
  refine (retains.upheld_flatTransform reference none).ofLayout.bind fun transform _ => ?_
  split
  · refine (retains.upheld_resolve reference).ofLayout.bind fun node _ => ?_
    exact (retains.upheld_flatLayerMap reference none).ofLayout.then _
  · split
    · exact .refl _
    · exact (retains.upheld_flatten acyclic reached).ofLayout.then _

private theorem upheld_body (retains : after.Retains before start) (acyclic : before.Acyclic)
    (settings : Settings K) {fragment : Fragment} (reached : before.Reaches start (.node fragment.node)) :
    Upheld (body before settings fragment) (body after settings fragment) := by
  refine (retains.upheld_node reached).ofLayout.bind fun node found => (Upheld.refl _).bind fun runs _ => ?_
  have stored := Layout.node_eq_ok_iff.mp (ofLayout_eq_ok_iff.mp found)
  have edges := Upheld.mapM fun child member =>
    upheld_edge retains acyclic settings fragment.layerMap child.1
      (reached.tail (.child stored member))
  exact edges.then _

private theorem upheld_outline (retains : after.Retains before start) (acyclic : before.Acyclic)
    (settings : Settings K) {root : Fragment} (reached : before.Reaches start (.node root.node)) :
    Upheld (outline before settings root) (outline after settings root) := by
  intro result success
  obtain ⟨defined, count⟩ := result
  obtain ⟨sweeps, made, _⟩ := outline_eq_ok_iff.mp success
  obtain ⟨_, _, found, distance, farthest, rfl⟩ := sweeps.spec
  have bodies : ∀ entry ∈ defined, body after settings entry.1 = .ok entry.2 := by
    intro entry member
    obtain ⟨length, way⟩ := (found entry.1).mp (List.mem_map_of_mem member)
    exact upheld_body retains acyclic settings (reached.trans (reaches_of_walk way)) _ (made entry member)
  have calls : ∀ fragment ∈ defined.fragments, callees before fragment = callees after fragment := by
    intro fragment listed
    obtain ⟨entry, member, rfl⟩ := List.mem_map.mp listed
    rw [← body_calls (made entry member), ← body_calls (bodies entry member)]
  -- The way to the farthest fragment has room among the nodes that are kept.
  obtain ⟨⟨farthest, way, _⟩, _⟩ := farthest
  obtain ⟨entry, member, rfl⟩ := List.mem_map.mp ((found farthest).mpr ⟨distance, way⟩)
  obtain ⟨node, there, _⟩ := body_eq_ok (made entry member)
  have present := Layout.contains_node_iff.mpr ⟨node, Layout.node_eq_ok_iff.mp there⟩
  have room : distance < after.nodes.count := length_lt_count_of_contains acyclic way present
    fun key further => retains.contains (reached.trans further)
  exact outline_eq_ok_iff.mpr ⟨sweeps.congr calls, bodies, by omega⟩

private theorem reaches_of_edge {settings : Settings K} {subject : Subject K} {root : Fragment}
    {transform : Transform K}
    (called : subject.edge before settings = .ok (.call root transform)) :
    before.Reaches subject.asReference.target (.node root.node) := by
  cases subject with
  | node key =>
    obtain ⟨rfl, _⟩ := Edge.call.inj (subject_node_eq_ok called)
    exact .refl
  | reference reference =>
    rcases edge_cases called with ⟨_, _, _, same, _, _, resolved, _⟩ | ⟨_, _, _, same, _⟩
    · cases same
      exact Layout.reaches_of_resolve resolved
    · cases same

private theorem upheld_compile {subject : Subject K}
    (retains : after.Retains before subject.asReference.target) (acyclic : before.Acyclic)
    (settings : Settings K) :
    Upheld (compile before settings subject) (compile after settings subject) := by
  have edges : Upheld (subject.edge before settings) (subject.edge after settings) := by
    cases subject with
    | node key => exact (retains.upheld_node .refl).ofLayout.then _
    | reference reference => exact upheld_edge retains acyclic settings .identity rootName .refl
  rw [compile_eq, compile_eq]
  refine edges.bind fun made called => ?_
  cases made with
  | inline runs => exact .refl _
  | call root transform => exact (upheld_outline retains acyclic settings (reaches_of_edge called)).then _

/-- Whatever is added to a hierarchy without circles and removed from it, what was compiled or flattened
before comes to the same, as long as no node is removed that targets lead to from the subject. Places
that become free and are filled again make no difference. -/
theorem unrelated_edits_unseen {layout : Layout K} (acyclic : layout.Acyclic) {subject : Subject K}
    {edits : List (Layout.Edit K)} (spares : layout.Spares subject.asReference.target edits) :
    Upheld (layout.flatten subject.asReference) ((layout.run edits).flatten subject.asReference) ∧
    Upheld (layout.box subject.asReference) ((layout.run edits).box subject.asReference) ∧
    ∀ settings,
      Upheld (compile layout settings subject) (compile (layout.run edits) settings subject) ∧
      ((compile layout settings subject).isOk → ∀ space,
        write (layout.run edits) settings space subject = write layout settings space subject) := by
  have retains := (Layout.Retains.refl layout subject.asReference.target).run spares
  refine ⟨retains.upheld_flatten acyclic .refl, retains.upheld_box acyclic .refl, fun settings => ?_⟩
  have compiled := upheld_compile retains acyclic settings
  refine ⟨compiled, fun success space => ?_⟩
  obtain ⟨result, found⟩ := exists_eq_ok_iff.mpr success
  rw [write_eq, write_eq, found, compiled result found]

/-- A cell with a pad, and a node that is in no design. -/
def workshop : Layout Float :=
  (Layout.empty "workshop").run [
    .addNode ((NodeDraft.empty "pad").addPolygons "metal" [.rectangle ⟨0, 0⟩ ⟨1, 1⟩]),
    .addNode ⟨"cell", .empty, [("part", ⟨.node (.ofParts 1 1), .translate 3 0, .identity⟩)],
      by simp, by simp⟩,
    .addNode (.empty "scrap")]

/-- The node in no design is removed, and its place is taken by one above the cell. -/
def renovation : List (Layout.Edit Float) :=
  [.removeNode (.ofParts 3 1),
    .addReference (.toNode (.ofParts 2 1)),
    .addNode ⟨"frame", .empty, [("inside", .stackOn (.ofParts 1 1))], by simp, by simp⟩]

theorem renovated_unseen : (workshop.run renovation).nodes.keys =
      [.ofParts 1 1, .ofParts 2 1, .ofParts 3 3] ∧
    ∃ result, compile workshop ⟨1, 1, true⟩ (.node (.ofParts 2 1)) = .ok result ∧
      compile (workshop.run renovation) ⟨1, 1, true⟩ (.node (.ofParts 2 1)) = .ok result := by
  have acyclic : workshop.Acyclic :=
    ((Layout.Origin.empty "workshop").sound.run _ (by decide)).acyclic
  have spares : workshop.Spares (Subject.node (K := Float) (.ofParts 2 1)).asReference.target
      renovation := by
    intro key member _ reached
    have same : key = .ofParts 3 1 := by simpa [renovation] using member
    have listed : Target.node key ∈ [.node (.ofParts 2 1), .node (.ofParts 1 1)] :=
      Layout.mem_of_reaches reached (by decide) (by decide)
    rw [same] at listed
    exact absurd listed (by decide)
  have success : (compile workshop ⟨1, 1, true⟩ (.node (.ofParts 2 1))).isOk := by decide +kernel
  obtain ⟨result, compiled⟩ := exists_eq_ok_iff.mpr success
  obtain ⟨_, _, compiles⟩ := unrelated_edits_unseen acyclic spares
  exact ⟨by decide, result, compiled, (compiles ⟨1, 1, true⟩).1 result compiled⟩

end Cif

end MaskLayout
