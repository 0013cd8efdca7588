import MaskLayout.Proofs.Cif.Depiction
import MaskLayout.Proofs.Cif.Termination
import MaskLayout.Proofs.Layout.Closedness

/-!
Compilations of layouts in which every target is there. What is pending names nodes that are there, so
nothing is left to refuse but what no call can carry, and layers that a table does not know.
-/
namespace MaskLayout.Cif

variable {K : Type}

/-- A layer that a table does not know, or an edge that strict settings refuse. -/
inductive CifError.IsOwn (tables strict : Prop) : CifError K → Prop where
  | layout {error : LayoutError} (unfamiliar : error.IsUnfamiliar tables) :
      IsOwn tables strict (.layout error)
  | unrepresentable {edge : String} {scaleX scaleY shear : K} (refuses : strict) :
      IsOwn tables strict (.unrepresentable edge scaleX scaleY shear)

private theorem ofLayout_outcome {α : Type} {tables strict : Prop} {good : α → Prop}
    {result : Except LayoutError α}
    (outcome : Outcome good (LayoutError.IsUnfamiliar tables) result) :
    Outcome good (CifError.IsOwn (K := K) tables strict) (ofLayout result) := by
  cases result with
  | ok value => exact outcome
  | error error => exact .layout outcome

variable [Scalar K] {layout : Layout K} {settings : Settings K} {tables : Prop}

omit [Scalar K] in
private theorem draw_fails_only {layerMap : LayerMap} (plain : layerMap.isTable → tables)
    (geometry : LayerGeometry K) :
    FailsOnly (LayoutError.IsUnfamiliar tables) (draw layerMap geometry) := by
  refine (Outcome.mapM (fun _ => True) _ fun entry _ => ?_).bind fun runs _ => trivial
  have known := LayerMap.lookup_fails_only plain entry.1
  dsimp only [drawLayer]
  split
  · trivial
  · cases found : layerMap.lookup entry.1 with
    | error error =>
      rw [found] at known
      exact known
    | ok destination => cases destination <;> trivial

/-- All fragments name nodes that are there. -/
abbrev AllFit (layout : Layout K) (tables : Prop) (fragments : List Fragment) : Prop :=
  ∀ fragment ∈ fragments, layout.Fits tables (.node fragment.node) fragment.layerMap

private theorem edge_outcome (stocked : layout.Stocked tables) {layerMap : LayerMap}
    (plain : layerMap.isTable → tables) (name : String) {reference : Reference K}
    (fits : layout.Fits tables reference.target reference.layerMap) :
    Outcome (fun made => AllFit layout tables made.calls) (CifError.IsOwn tables settings.strict)
      (edge layout settings layerMap name reference) := by
  obtain ⟨chain, leading, _, reached, turned⟩ := Layout.exists_walk stocked fits
  rw [edge, turned, reached, ofLayout_ok, ok_bind]
  split
  · rw [ofLayout_ok, ok_bind]
    refine (ofLayout_outcome (Layout.flatLayerMap_outcome stocked fits none)).bind fun inner own => ?_
    refine (ofLayout_outcome (LayerMap.compose_outcome own plain)).bind fun composed both => ?_
    exact List.forall_mem_singleton.mpr ⟨leading.present, both⟩
  · split
    · rename_i refuses
      exact .unrepresentable refuses
    · refine (ofLayout_outcome (Layout.flatten_fails_only stocked fits)).bind fun flattened _ => ?_
      refine (ofLayout_outcome (draw_fails_only plain flattened.geometry)).bind fun runs _ => ?_
      exact List.forall_mem_nil _

private theorem body_outcome (stocked : layout.Stocked tables) {fragment : Fragment}
    (fits : layout.Fits tables (.node fragment.node) fragment.layerMap) :
    Outcome (fun made => AllFit layout tables made.calls) (CifError.IsOwn tables settings.strict)
      (body layout settings fragment) := by
  obtain ⟨node, found, stored⟩ := fits.node
  rw [body, found, ofLayout_ok, ok_bind]
  refine (ofLayout_outcome (draw_fails_only fits.plain node.geometry)).bind fun runs _ => ?_
  refine (Outcome.mapM (fun made => AllFit layout tables made.calls) _ fun child member =>
    edge_outcome stocked fits.plain child.1 (stocked.child stored member)).bind fun edges all => ?_
  intro callee member
  obtain ⟨made, listed, called⟩ := List.mem_flatMap.mp member
  exact all made listed callee called

private theorem pass_outcome (stocked : layout.Stocked tables) (settings : Settings K)
    (defined : Defined K)
    {pending : List Fragment} (fit : AllFit layout tables pending) :
    Outcome (fun state => AllFit layout tables state.2) (CifError.IsOwn tables settings.strict)
      (pass layout settings defined pending) := by
  unfold pass
  refine Outcome.foldlM_keeps _ (fun fragment member state later => ?_) (List.forall_mem_nil _)
  unfold define
  split
  · exact later
  · refine (body_outcome stocked (fit fragment member)).bind fun made calls => ?_
    exact List.forall_mem_append.mpr ⟨later, calls⟩

private theorem passes_fails_only (stocked : layout.Stocked tables) {allowance : Nat}
    {defined : Defined K}
    {pending : List Fragment} (fit : AllFit layout tables pending) :
    FailsOnly (fun error => error = .layout .endless ∨ error.IsOwn tables settings.strict)
      (passes layout settings allowance defined pending) := by
  fun_induction passes layout settings allowance defined pending with
  | case1 allowance defined pending error failed =>
    have outcome := pass_outcome stocked settings defined fit
    rw [failed] at outcome
    exact .inr outcome
  | case2 allowance defined pending extended later passed stopped => trivial
  | case3 defined pending extended later passed further => exact .inl rfl
  | case4 defined pending extended later passed further allowance ih =>
    have outcome := pass_outcome stocked settings defined fit
    rw [passed] at outcome
    exact (ih outcome).bind fun _ _ => trivial

private theorem subject_edge_outcome (stocked : layout.Stocked tables) {subject : Subject K}
    (fits : layout.Fits tables subject.asReference.target subject.asReference.layerMap) :
    Outcome (fun made => AllFit layout tables made.calls) (CifError.IsOwn tables settings.strict)
      (subject.edge layout settings) := by
  cases subject with
  | node key =>
    obtain ⟨node, found, _⟩ := Layout.Fits.node fits
    rw [Subject.edge, found, ofLayout_ok, ok_bind]
    exact List.forall_mem_singleton.mpr fits
  | reference reference => exact edge_outcome stocked (fun table => by cases table) rootName fits

private theorem compile_fails_only (stocked : layout.Stocked tables) {subject : Subject K}
    (fits : layout.Fits tables subject.asReference.target subject.asReference.layerMap) :
    FailsOnly (CifError.IsOwn tables settings.strict) (compile layout settings subject) := by
  have outcome : FailsOnly (fun error => error = .layout .endless ∨ error.IsOwn tables settings.strict)
      (compile layout settings subject) := by
    rw [compile_eq]
    refine ((subject_edge_outcome stocked fits).weaken (fun _ calls => calls)
      fun _ own => .inr own).bind fun made calls => ?_
    cases made with
    | inline runs => trivial
    | call root transform => exact (passes_fails_only stocked calls).bind fun _ _ => trivial
  -- There are never more passes than the bound allows, as there are no circles.
  refine (outcome.and (compile_decides stocked.acyclic settings subject)).weaken (fun _ _ => trivial) ?_
  rintro error ⟨rfl | own, refusal⟩
  · exact refusal.elim
  · exact own

/-- In a layout that is made or loaded, and only added to since, nothing that a reference to one of its
entries leads to is ever missing. What can fail at all fails for a depth beyond the stack, for a copy of
a stack, for a design without geometry, for an edge that strict settings refuse, or for a layer that a
table does not know; and the last needs a table among the maps of the layout and the reference. -/
theorem stale_only_by_removal {start : Layout Float} (origin : start.Origin)
    {edits : List (Layout.Edit Float)} (additions : ∀ change ∈ edits, change.isRemoval = false)
    {reference : Reference Float} (present : (start.run edits).contains reference.target) :
    let layout := start.run edits
    let tables := ∃ map ∈ reference.layerMap :: layout.layerMaps, map.isTable
    ((layout.depth reference).isOk ∧ (layout.resolve reference).isOk ∧
      ∀ limit, (layout.flatTransform reference limit).isOk) ∧
    (∀ depth, FailsOnly (fun error => ∃ max, error = .invalidDepth depth max)
      (layout.targetAt reference depth)) ∧
    FailsOnly (fun error => ∃ depth, error = .copyStacked depth) (layout.copy reference) ∧
    (∀ limit, FailsOnly (LayoutError.IsUnfamiliar tables) (layout.flatLayerMap reference limit)) ∧
    FailsOnly (LayoutError.IsUnfamiliar tables) (layout.children reference) ∧
    FailsOnly (LayoutError.IsUnfamiliar tables) (layout.flatten reference) ∧
    FailsOnly (fun error => error = .emptyGeometry ∨ error.IsUnfamiliar tables)
      (layout.box reference) ∧
    (∀ settings, FailsOnly (CifError.IsOwn tables settings.strict)
      (compile layout settings (.reference reference))) ∧
    (¬ tables → (layout.flatten reference).isOk ∧ (layout.children reference).isOk ∧
      ∀ settings, settings.strict = false → (compile layout settings (.reference reference)).isOk) := by
  intro layout tables
  have stocked : layout.Stocked tables := origin.stocked_run additions fun map member table =>
    ⟨map, List.mem_cons_of_mem _ member, table⟩
  have fits : layout.Fits tables reference.target reference.layerMap :=
    ⟨present, fun table => ⟨_, List.mem_cons_self, table⟩⟩
  obtain ⟨chain, _, depth, resolved, turned⟩ := Layout.exists_walk stocked fits
  have flattens := Layout.flatten_fails_only stocked fits
  have children := Layout.children_fails_only stocked fits
  have compiles (settings : Settings Float) : FailsOnly (CifError.IsOwn tables settings.strict)
      (compile layout settings (.reference reference)) := compile_fails_only stocked fits
  refine ⟨⟨?_, ?_, fun limit => ?_⟩, Layout.targetAt_fails_only stocked fits,
    Layout.copy_fails_only stocked fits, fun limit => ?_, children, flattens,
    Layout.box_fails_only stocked fits, compiles, fun none => ⟨?_, ?_, fun settings lenient => ?_⟩⟩
  · exact exists_eq_ok_iff.mp ⟨_, depth⟩
  · exact exists_eq_ok_iff.mp ⟨_, resolved⟩
  · exact exists_eq_ok_iff.mp ⟨_, turned limit⟩
  · exact (Layout.flatLayerMap_outcome stocked fits limit).mono fun _ _ => trivial
  · exact flattens.isOk fun _ unfamiliar => none unfamiliar.1
  · exact children.isOk fun _ unfamiliar => none unfamiliar.1
  · refine (compiles settings).isOk fun error own => ?_
    cases own with
    | layout unfamiliar => exact none unfamiliar.1
    | unrepresentable refuses => simp [lenient] at refuses

/-- A cell that is stacked on a reference to a pad, in which a layer is renamed. -/
def stacked : List (Layout.Edit Float) :=
  [.addNode ((NodeDraft.empty "pad").addPolygons "metal" [⟨[⟨0, 0⟩, ⟨1, 0⟩, ⟨1, 1⟩]⟩]),
    .addReference (.toNode (.ofParts 1 1)),
    .addNode ⟨"cell", .empty, [("part", ⟨.reference (.ofParts 1 1), .identity, .constant "via"⟩)],
      by simp, by simp⟩]

theorem stacked_compiles : ((Layout.empty "stacked").run stacked).contains (.node (.ofParts 2 1)) ∧
    (((Layout.empty "stacked").run stacked).flatten (.toNode (.ofParts 2 1))).isOk ∧
    ∀ settings, settings.strict = false →
      (compile ((Layout.empty "stacked").run stacked) settings
        (.reference (.toNode (.ofParts 2 1)))).isOk := by
  have additions : ∀ change ∈ stacked, change.isRemoval = false := by decide
  have present : ((Layout.empty "stacked").run stacked).contains
      (Reference.toNode (K := Float) (.ofParts 2 1)).target := by decide
  obtain ⟨_, _, _, _, _, _, _, _, plain⟩ :=
    stale_only_by_removal (.empty "stacked") additions present
  obtain ⟨flattens, _, compiles⟩ := plain (by decide)
  exact ⟨present, flattens, compiles⟩

end MaskLayout.Cif
