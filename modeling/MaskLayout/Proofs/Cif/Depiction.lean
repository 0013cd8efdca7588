import MaskLayout.Binary64.Scalar
import MaskLayout.Proofs.Cif.Drawing
import MaskLayout.Proofs.Cif.Numbering
import MaskLayout.Proofs.Layout.Validation

/-!
A program whose routines call all children draws what flattening collects: on every layer the same
polygons in the same order, less those without corners. The routine of a fragment draws what a
placement of the fragment shows, and a call draws what the child's placement shows.
-/
namespace MaskLayout.Cif

open BreadthFirst

variable {K : Type} [Scalar K]

/-- A call, in a routine that is drawn under a transform, and the placement that it stands for. -/
inductive Places (transform : Transform K) : Edge K → Placement K → Prop where
  | call (fragment : Fragment) (placed : Transform K) :
      Places transform (.call fragment placed)
        ⟨fragment.node, transform.compose placed, fragment.layerMap⟩

/-- A program of fragments that call only one another. -/
structure Linked (layout : Layout K) (settings : Settings K) (defined : Defined K)
    (program : Program K) : Prop where
  routines : program.routines = defined.routines
  made : defined.Made layout settings
  closed : ∀ fragment ∈ defined.fragments, ∀ callee ∈ callees layout fragment,
    callee ∈ defined.fragments
  native : ∀ entry ∈ defined, ∀ edge ∈ entry.2.edges, edge.isInline = false

variable {layout : Layout K} {settings : Settings K} {defined : Defined K} {program : Program K}

private theorem edge_callee {layerMap : LayerMap} {name : String} {reference : Reference K}
    {result : Edge K}
    (made : edge layout settings layerMap name reference = .ok result) {callee : Fragment}
    (called : callee ∈ result.calls) :
    layout.resolve reference = .ok callee.node ∧ ∃ inner,
      layout.flatLayerMap reference none = .ok inner ∧ inner.compose layerMap = .ok callee.layerMap := by
  rcases edge_cases made with ⟨fragment, _, inner, rfl, _, _, resolved, mapped, fits⟩ |
    ⟨runs, _, _, rfl, _⟩
  · rw [Edge.calls, List.mem_singleton] at called
    rw [called]
    exact ⟨resolved, inner, mapped, fits⟩
  · cases called

private theorem edge_places {outer below : Placement K} {child : String × Reference K} {result : Edge K}
    (made : edge layout settings outer.layerMap child.1 child.2 = .ok result)
    (native : result.isInline = false) {inner : Placement K}
    (found : layout.placement child.2 = .ok inner) (composed : inner.under outer = .ok below) :
    Places outer.transform result below := by
  rcases edge_cases made with ⟨fragment, transform, layerMap, rfl, placed, _, resolved, mapped, fits⟩ |
    ⟨runs, _, _, rfl, _⟩
  · obtain ⟨node, moved, sent⟩ := Layout.placement_eq_ok found
    rw [resolved] at node
    rw [placed] at moved
    rw [mapped] at sent
    obtain ⟨joined, agrees, same⟩ := bind_eq_ok_iff.mp composed
    rw [← Except.ok.inj sent, fits] at agrees
    rw [← Except.ok.inj same, ← Except.ok.inj node, ← Except.ok.inj moved, ← Except.ok.inj agrees]
    exact .call fragment transform
  · cases native

/-- The calls of a body stand for the placements below the node, one for each child. -/
theorem body_places {placement : Placement K} {node : Node K} {result : Body K}
    {children : List (Placement K)}
    (made : body layout settings ⟨placement.node, placement.layerMap⟩ = .ok result)
    (native : ∀ edge ∈ result.edges, edge.isInline = false)
    (found : layout.node placement.node = .ok node)
    (composed : layout.placementsBelow placement node = .ok children) :
    List.Forall₂ (Places placement.transform) result.edges children := by
  obtain ⟨same, found', _, edges⟩ := body_eq_ok made
  cases Except.ok.inj (found.symm.trans found')
  have placed := Layout.placementsBelow_eq_ok_iff.mp composed
  generalize node.children = drawn, result.edges = results at edges placed native
  clear composed
  induction edges generalizing children with
  | nil =>
    cases placed
    exact .nil
  | cons first _ ih =>
    cases placed with
    | cons start rest =>
      obtain ⟨inner, reached, under⟩ := start
      obtain ⟨called, others⟩ := List.forall_mem_cons.mp native
      exact .cons (edge_places first called reached under) (ih rest others)

namespace Linked

variable (linked : Linked layout settings defined program)

include linked

/-- The routine of a fragment holds the lines of its body, which calls fragments that are there. -/
theorem routine {fragment : Fragment} (member : fragment ∈ defined.fragments) :
    ∃ made, body layout settings fragment = .ok made ∧
      program.routine? (defined.number fragment) = some (made.lines defined.number) ∧
      (∀ edge ∈ made.edges, edge.isInline = false) ∧
      ∀ edge ∈ made.edges, ∀ callee ∈ edge.calls, callee ∈ defined.fragments := by
  have indexed : defined.fragments[defined.fragments.idxOf fragment]? = some fragment :=
    List.getElem?_idxOf member
  rw [Defined.fragments, List.getElem?_map] at indexed
  obtain ⟨entry, listed, rfl⟩ := Option.map_eq_some_iff.mp indexed
  have present := List.mem_of_getElem? listed
  have made := linked.made entry present
  refine ⟨entry.2, made, ?_, linked.native entry present, fun edge drawn callee called => ?_⟩
  · have looked : program.routine? (defined.number entry.1) =
        program.routines[defined.fragments.idxOf entry.1]? := rfl
    rw [looked, linked.routines, Defined.routines, List.getElem?_map]
    exact congrArg _ listed
  · apply linked.closed entry.1 member
    rw [← body_calls made]
    exact List.mem_flatMap.mpr ⟨edge, drawn, called⟩

/-- Where every layer is discarded, a routine draws nothing if those that it calls draw nothing. -/
theorem performs_nothing_of_below {fragment : Fragment} (member : fragment ∈ defined.fragments)
    (discards : fragment.layerMap = .discardAll)
    (below : ∀ callee ∈ defined.fragments, layout.Below (.node callee.node) (.node fragment.node) →
      callee.layerMap = .discardAll → ∀ placed, program.Performs (defined.number callee) placed [])
    (transform : Transform K) : program.Performs (defined.number fragment) transform [] := by
  obtain ⟨made, body, found, native, known⟩ := linked.routine member
  obtain ⟨node, present, drawn, edges⟩ := body_eq_ok body
  have blank : made.runs.flatMap (Run.drawing transform) = [] := by
    have shown := draw_eq_ok ⟨fragment.node, transform, fragment.layerMap⟩ drawn
    rwa [Placement.drawing_discardAll discards, Drawing.visible_nil] at shown
  have silent : ∀ current, program.Draws current transform
      (made.edges.flatMap (Edge.lines defined.number)) [] := by
    intro current
    refine .nothing_of_calls (fun edge listed => ⟨native edge listed, fun callee called => ?_⟩) current _
    obtain ⟨child, born, made⟩ := exists_mem_of_forall₂ edges listed
    obtain ⟨resolved, inner, _, fits⟩ := edge_callee made called
    rw [discards, LayerMap.compose_discardAll] at fits
    exact below callee (known edge listed callee called) (Layout.below_of_resolve present born resolved)
      (Except.ok.inj fits).symm
  refine ⟨_, found, ?_⟩
  have draws := Program.Draws.runs made.runs silent none
  rwa [blank] at draws

/-- Where every layer is discarded, a routine comes to an end, and draws nothing. -/
theorem performs_nothing (acyclic : layout.Acyclic) {fragment : Fragment}
    (member : fragment ∈ defined.fragments) (discards : fragment.layerMap = .discardAll)
    (transform : Transform K) : program.Performs (defined.number fragment) transform [] := by
  generalize start : Target.node fragment.node = entry
  induction entry using acyclic.wellFounded.induction generalizing fragment transform with
  | h entry ih =>
    refine linked.performs_nothing_of_below member discards (fun callee known lower same => ?_) transform
    exact fun placed => ih _ (start ▸ lower) known same placed rfl

/-- The routine of a fragment draws its polygons, and then what is drawn by its calls. -/
theorem performs {placement : Placement K} {node : Node K} {children : List (Placement K)}
    {below : Drawing K} (member : ⟨placement.node, placement.layerMap⟩ ∈ defined.fragments)
    (found : layout.node placement.node = .ok node)
    (composed : layout.placementsBelow placement node = .ok children)
    (inside : ∀ edges, List.Forall₂ (Places placement.transform) edges children →
      (∀ edge ∈ edges, ∀ callee ∈ edge.calls, callee ∈ defined.fragments) →
      ∀ current, program.Draws current placement.transform
        (edges.flatMap (Edge.lines defined.number)) (Drawing.visible below)) :
    program.Performs (defined.number ⟨placement.node, placement.layerMap⟩) placement.transform
      (Drawing.visible (placement.drawing node ++ below)) := by
  obtain ⟨made, body, looked, native, known⟩ := linked.routine member
  obtain ⟨same, found', drawn, _⟩ := body_eq_ok body
  cases Except.ok.inj (found.symm.trans found')
  refine ⟨made.lines defined.number, looked, ?_⟩
  rw [Drawing.visible_append, ← draw_eq_ok placement drawn]
  exact .runs made.runs (inside made.edges (body_places body native found composed) known) none

/-- Calls draw, one after the other, what the placements that they stand for show. -/
theorem draws_calls (acyclic : layout.Acyclic) {placements : List (Placement K)}
    {drawing : Drawing K} (shows : layout.Shows placements drawing) {transform : Transform K}
    {edges : List (Edge K)} (placed : List.Forall₂ (Places transform) edges placements)
    (known : ∀ edge ∈ edges, ∀ callee ∈ edge.calls, callee ∈ defined.fragments)
    (current : Option String) :
    program.Draws current transform (edges.flatMap (Edge.lines defined.number))
      (Drawing.visible drawing) := by
  induction shows generalizing transform edges current with
  | nothing =>
    cases placed
    exact .nothing
  | skip discards after ih =>
    cases placed with
    | cons first others =>
      obtain ⟨called, rest⟩ := List.forall_mem_cons.mp known
      cases first with
      | call fragment moved =>
        have member := called fragment (by simp [Edge.calls])
        exact .of_performs (linked.performs_nothing acyclic member discards _) (ih others rest current)
  | visit found composed inside after ihInside ihAfter =>
    cases placed with
    | cons first others =>
      obtain ⟨called, rest⟩ := List.forall_mem_cons.mp known
      cases first with
      | call fragment moved =>
        have member := called fragment (by simp [Edge.calls])
        rw [Drawing.visible_append]
        refine .of_performs ?_ (ihAfter others rest current)
        exact linked.performs member found composed fun _ below reached => ihInside below reached

/-- The routine of a fragment draws what a placement of the fragment shows. -/
theorem performs_placement (acyclic : layout.Acyclic) {placement : Placement K}
    {drawing : Drawing K} (shows : layout.Shows [placement] drawing)
    (member : ⟨placement.node, placement.layerMap⟩ ∈ defined.fragments) :
    program.Performs (defined.number ⟨placement.node, placement.layerMap⟩) placement.transform
      (Drawing.visible drawing) := by
  cases shows with
  | skip discards after =>
    cases after
    exact linked.performs_nothing acyclic member discards _
  | visit found composed inside after =>
    cases after
    rw [List.append_nil]
    exact linked.performs member found composed fun _ below reached =>
      linked.draws_calls acyclic inside below reached

end Linked

/-- A compilation in which nothing is expanded in place links the fragments that it outlines. -/
theorem linked_of_outline {root : Fragment} {passes : Nat} (transform : Transform K)
    (outlined : outline layout settings root = .ok (defined, passes))
    (native : (defined.flatMap (·.2.edges)).countP Edge.isInline = 0) :
    root ∈ defined.fragments ∧
      Linked layout settings defined ⟨defined.routines, defined.number root, transform⟩ := by
  obtain ⟨sweeps, made⟩ := outline_eq_ok outlined
  obtain ⟨_, _, reachable, _⟩ := sweeps.spec
  refine ⟨(reachable root).mpr ⟨0, .start⟩, rfl, made, ?_, ?_⟩
  · intro fragment member callee called
    obtain ⟨length, way⟩ := (reachable fragment).mp member
    exact (reachable callee).mpr ⟨length + 1, .step way called⟩
  · intro entry member edge drawn
    have none := List.countP_eq_zero.mp native edge (List.mem_flatMap.mpr ⟨entry, member, drawn⟩)
    simpa using none

/-- A subject as a reference: a node as the plain reference to it. -/
def Subject.asReference : Subject K → Reference K
  | .node key => .toNode key
  | .reference root => root

/-- The call of a subject stands for the placement of its reference. -/
theorem subject_placement {layout : Layout Float} {settings : Settings Float} {subject : Subject Float}
    {root : Fragment} {transform : Transform Float} {placement : Placement Float}
    (success : subject.edge layout settings = .ok (.call root transform))
    (placed : layout.placement subject.asReference = .ok placement) :
    placement = ⟨root.node, transform, root.layerMap⟩ := by
  cases subject with
  | node key =>
    obtain ⟨rfl, rfl⟩ := Edge.call.inj (subject_node_eq_ok success)
    have chain : layout.chain (.toNode key) = .ok ⟨[.toNode key], key⟩ := by
      unfold Layout.chain Layout.follow
      rfl
    obtain ⟨_, followed, rest⟩ := bind_eq_ok_iff.mp placed
    rw [← Except.ok.inj (chain.symm.trans followed)] at rest
    have neutral : (Transform.identity : Transform Float).compose .identity = .identity := rfl
    have placement_eq := (Except.ok.inj rest).symm
    rw [placement_eq, ← neutral]
    rfl
  | reference reference =>
    obtain ⟨resolved, moved, mapped⟩ := Layout.placement_eq_ok placed
    unfold Subject.asReference at resolved moved mapped
    rcases edge_cases success with ⟨fragment, turned, inner, call, found, _, reached, sent, fits⟩ |
      ⟨_, _, _, call, _⟩
    · obtain ⟨rfl, rfl⟩ := Edge.call.inj call
      rw [LayerMap.compose_identity] at fits
      rw [reached] at resolved
      rw [found] at moved
      rw [sent] at mapped
      rw [Except.ok.inj resolved, Except.ok.inj moved, ← Except.ok.inj fits, Except.ok.inj mapped]
    · cases call

/-- A program in which nothing had to be expanded in place draws one thing only: on every layer the
polygons that flattening the subject collects there, in the same order, less those without corners. -/
theorem compile_depicts {layout : Layout Float} {settings : Settings Float} {subject : Subject Float}
    {program : Program Float} {summary : Summary} {flattened : Flattened Float}
    (acyclic : layout.Acyclic)
    (success : compile layout settings subject = .ok (program, summary))
    (native : summary.inlineExpansions = 0)
    (flattens : layout.flatten subject.asReference = .ok flattened) :
    ∃ drawing, (∀ other, program.Depicts other ↔ other = drawing) ∧
      ∀ layer, drawing.on layer =
        (flattened.geometry.polygons layer).filter fun polygon => !polygon.isEmpty := by
  rcases compile_cases success with ⟨root, transform, defined, passes, edge, outlined, rfl, rfl⟩ |
    ⟨runs, _, _, rfl⟩
  · obtain ⟨member, linked⟩ := linked_of_outline transform outlined native
    obtain ⟨placement, drawing, placed, shows, collected⟩ := Layout.flatten_eq_ok flattens
    cases subject_placement edge placed
    have depicts := linked.performs_placement acyclic shows member
    refine ⟨drawing.visible, fun other => ⟨fun draws => ?_, fun same => same ▸ depicts⟩, fun layer => ?_⟩
    · exact Program.Performs.unique draws depicts
    · rw [Drawing.on_visible, collected]
  · cases native

theorem twins_depicted : ∃ program flattened drawing,
    compile twins ⟨1, 1, true⟩ (.node (.ofParts 2 1)) = .ok (program, ⟨3, 0, 3⟩) ∧
      twins.flatten (.toNode (.ofParts 2 1)) = .ok flattened ∧
      (∀ other, program.Depicts other ↔ other = drawing) ∧
      ∀ layer, drawing.on layer =
        (flattened.geometry.polygons layer).filter fun polygon => !polygon.isEmpty := by
  obtain ⟨program, compiled⟩ := twins_compiled
  have layers : (twins.flatten (.toNode (.ofParts 2 1))).map (·.geometry.names) =
      .ok ["metal", "poly"] := by
    decide +kernel
  obtain ⟨flattened, flattens, _⟩ := map_eq_ok_iff.mp layers
  have acyclic : twins.Acyclic := Layout.acyclic_of_grounded (Layout.grounded_of_validate rfl)
  obtain ⟨drawing, depicts, agrees⟩ := compile_depicts acyclic compiled rfl flattens
  exact ⟨program, flattened, drawing, compiled, flattens, depicts, agrees⟩

end MaskLayout.Cif
