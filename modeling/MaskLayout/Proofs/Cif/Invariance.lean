import MaskLayout.Proofs.Cif.Plan

/-!
Transforms decide which children are called and which are expanded in place, but not on which layers a
compiled program draws. It draws on every layer as many polygons as are marked there, and marks do not
depend on transforms.
-/
namespace MaskLayout.Cif

variable {K : Type}

variable [Scalar K] {layout : Layout K} {settings : Settings K} {program : Program K}

/-- Lines that draw the same whatever comes before and after them. -/
def Program.Adds (program : Program K) (transform : Transform K) (lines : List (Line K))
    (drawing : Drawing K) : Prop :=
  ∀ rest later, (∀ current, program.Draws current transform rest later) →
    ∀ current, program.Draws current transform (lines ++ rest) (drawing ++ later)

private theorem Program.Adds.append {transform : Transform K} {first second : List (Line K)}
    {earlier later : Drawing K} (start : program.Adds transform first earlier)
    (rest : program.Adds transform second later) :
    program.Adds transform (first ++ second) (earlier ++ later) := by
  intro others behind after
  rw [List.append_assoc, List.append_assoc]
  exact start _ _ (rest others behind after)

private theorem Program.Adds.runs (runs : List (Run K)) (transform : Transform K) :
    program.Adds transform (runs.flatMap Run.lines) (runs.flatMap (Run.drawing transform)) :=
  fun _ _ after current => .runs runs after current

private theorem Program.Adds.call {number : Nat} {transform placed : Transform K} {drawing : Drawing K}
    (performs : program.Performs number (transform.compose placed) drawing) :
    program.Adds transform [.call number placed] drawing :=
  fun _ _ after current => .of_performs performs (after current)

private theorem Program.Adds.draws {transform : Transform K} {lines : List (Line K)}
    {drawing : Drawing K}
    (adds : program.Adds transform lines drawing) : program.Draws none transform lines drawing := by
  have draws := adds [] [] (fun _ => .nothing) none
  rwa [List.append_nil, List.append_nil] at draws

/-- Runs lie on the layers on which their polygons are marked. -/
theorem layers_of_draw {layerMap : LayerMap} {geometry : LayerGeometry K} {runs : List (Run K)}
    (success : draw layerMap geometry = .ok runs) (key : NodeKey) (transform : Transform K) :
    (runs.flatMap (Run.drawing transform)).map (·.1) = geometry.marks.filterMap layerMap.kept? := by
  let placement : Placement K := ⟨key, transform, layerMap⟩
  let node : Node K := ⟨"", geometry, []⟩
  have drawn : runs.flatMap (Run.drawing transform) = Drawing.visible (placement.drawing node) :=
    draw_eq_ok placement success
  rw [drawn]
  exact placement.layers_drawing node

/-- A drawing with as many polygons on each layer as it is marked. -/
def Covers (drawing : Drawing K) (marked : List String) : Prop := (drawing.map (·.1)).Perm marked

omit [Scalar K] in
private theorem Covers.append {first second : Drawing K} {earlier later : List String}
    (start : Covers first earlier) (rest : Covers second later) :
    Covers (first ++ second) (earlier ++ later) := by
  unfold Covers
  rw [List.map_append]
  exact List.Perm.append start rest

omit [Scalar K] in
private theorem Covers.length_on {drawing : Drawing K} {marked : List String}
    (covers : Covers drawing marked)
    (layer : String) : (drawing.on layer).length = marked.count layer := by
  rw [Drawing.length_on]
  exact List.Perm.count_eq covers layer

/-- What is drawn in place for a child covers what is marked below it. -/
theorem covers_inline (acyclic : layout.Acyclic) {around : LayerMap} {reference : Reference K}
    (expandable : ∀ inner, standsFor layout reference = .ok inner → Expandable layout around inner)
    (charted : ∀ lower, reach layout around reference = .ok lower → Charted layout lower)
    {flattened : Flattened K} {runs : List (Run K)} (flattens : layout.flatten reference = .ok flattened)
    (drawn : draw around flattened.geometry = .ok runs) {lower : Fragment} {marked : List String}
    (reached : reach layout around reference = .ok lower) (marks : Marks layout [lower] marked)
    (transform : Transform K) : Covers (runs.flatMap (Run.drawing transform)) marked := by
  obtain ⟨other, own, same, below, perm⟩ :=
    Expandable.exists_marks acyclic expandable charted flattens (exists_draw_iff.mp ⟨runs, drawn⟩)
  cases Except.ok.inj (same.symm.trans reached)
  rw [Covers, layers_of_draw drawn lower.node, ← below.unique marks]
  exact perm

variable {defined : Defined K} {root : Fragment}

/-- Routines that draw on every layer as many polygons as are marked below their fragments. -/
def Program.Fulfills (program : Program K) (layout : Layout K) (number : Fragment → Nat)
    (fragments : List Fragment) : Prop :=
  ∀ fragment ∈ fragments, ∀ marked, Marks layout [fragment] marked →
    ∀ transform, ∃ drawing, program.Performs (number fragment) transform drawing ∧ Covers drawing marked

namespace Comparable

variable (comparable : Comparable layout (Native layout) (Foreign layout) root) (acyclic : layout.Acyclic)
  {fragment : Fragment} (within : Within layout (Native layout) root fragment) {node : Node K}
  (found : layout.node fragment.node = .ok node) {number : Fragment → Nat}
  (below : program.Fulfills layout number (callees layout fragment))

include comparable acyclic within found below

/-- An edge adds what is marked below its child, if the routine that it calls does. -/
theorem exists_adds_edge (transform : Transform K) {child : String × Reference K} {made : Edge K}
    {lower : Fragment} {marked : List String} (listed : child ∈ node.children)
    (built : edge layout settings fragment.layerMap child.1 child.2 = .ok made)
    (reached : reach layout fragment.layerMap child.2 = .ok lower) (marks : Marks layout [lower] marked) :
    ∃ drawing, program.Adds transform (made.lines number) drawing ∧ Covers drawing marked := by
  rcases native_or_foreign layout child.2 with native | foreign
  · obtain ⟨placed, same⟩ : ∃ placed, edge layout settings fragment.layerMap child.1 child.2 =
        .ok (.call lower placed) := edge_of_reach native reached
    cases Except.ok.inj (built.symm.trans same)
    obtain ⟨drawing, performs, covers⟩ := below lower
      ((mem_callees_iff found).mpr ⟨child, listed, native, reached⟩) marked marks
      (transform.compose placed)
    exact ⟨drawing, .call performs, covers⟩
  · obtain ⟨expandable, charted⟩ := comparable.expandable_child within found listed foreign
    rcases edge_cases built with ⟨_, placed, _, _, moved, rigid, _⟩ |
      ⟨runs, _, flattened, rfl, _, _, _, flattens, drawn⟩
    · simp [Foreign, Layout.isNative, moved, rigid] at foreign
    · exact ⟨_, .runs runs transform,
        covers_inline acyclic expandable charted flattens drawn reached marks transform⟩

private theorem exists_adds_edges (transform : Transform K) {children : List (String × Reference K)}
    {edges : List (Edge K)} {lowers : List Fragment} {marked : List String}
    (listed : ∀ child ∈ children, child ∈ node.children)
    (built : List.Forall₂ (fun child made =>
      edge layout settings fragment.layerMap child.1 child.2 = .ok made) children edges)
    (reached : List.Forall₂ (fun child lower =>
      reach layout fragment.layerMap child.2 = .ok lower) children lowers)
    (marks : Marks layout lowers marked) :
    ∃ drawing, program.Adds transform (edges.flatMap (Edge.lines number)) drawing ∧
      Covers drawing marked := by
  induction built generalizing lowers marked with
  | nil =>
    cases reached
    cases marks
    exact ⟨[], fun _ _ after => after, List.Perm.nil⟩
  | cons first _ ih =>
    cases reached with
    | cons pair others =>
      obtain ⟨own, later, rfl, here, rest⟩ := marks.cons_split
      obtain ⟨member, further⟩ := List.forall_mem_cons.mp listed
      obtain ⟨drawing, adds, covers⟩ :=
        comparable.exists_adds_edge acyclic within found below transform member first pair here
      obtain ⟨behind, addsLater, coversLater⟩ := ih further others rest
      exact ⟨drawing ++ behind, adds.append addsLater, covers.append coversLater⟩

/-- The lines of a body draw what is marked below its fragment. -/
theorem exists_draws {made : Body K} {marked : List String}
    (built : body layout settings fragment = .ok made) (marks : Marks layout [fragment] marked)
    (transform : Transform K) :
    ∃ drawing, program.Draws none transform (made.lines number) drawing ∧ Covers drawing marked := by
  obtain ⟨node', found', drawn, edges⟩ := body_eq_ok built
  cases Except.ok.inj (found.symm.trans found')
  cases marks with
  | visit found'' known reached inside after =>
    cases Except.ok.inj (found.symm.trans found'')
    cases after
    rw [List.append_nil]
    obtain ⟨drawing, adds, covers⟩ := comparable.exists_adds_edges acyclic within found below transform
      (fun _ member => member) edges reached inside
    refine ⟨_, ((Program.Adds.runs made.runs transform).append adds).draws, Covers.append ?_ covers⟩
    rw [Covers, layers_of_draw drawn fragment.node]

end Comparable

/-- Every routine draws on each layer as many polygons as are marked below its fragment. -/
theorem Assembled.fulfills (assembled : Assembled layout settings defined program)
    (comparable : Comparable layout (Native layout) (Foreign layout) root) (acyclic : layout.Acyclic)
    (reachable : ∀ fragment ∈ defined.fragments, Within layout (Native layout) root fragment) :
    program.Fulfills layout defined.number defined.fragments := by
  intro fragment member
  generalize start : Target.node fragment.node = entry
  induction entry using acyclic.wellFounded.induction generalizing fragment with
  | h entry ih =>
    intro marked marks transform
    obtain ⟨⟨_, made⟩, listed, rfl⟩ := List.mem_map.mp member
    have built := assembled.made _ listed
    obtain ⟨node, found, _⟩ := body_eq_ok built
    have below : program.Fulfills layout defined.number (callees layout _) := fun callee called =>
      ih _ (start ▸ below_of_callees called) callee (assembled.closed _ member callee called) rfl
    obtain ⟨drawing, draws, covers⟩ := comparable.exists_draws acyclic (reachable _ member) found below
      built marks transform
    exact ⟨drawing, ⟨_, assembled.routine?_eq_some_iff.mpr ⟨_, member, rfl, made, built, rfl⟩, draws⟩,
      covers⟩

/-- A compiled program draws on each layer as many polygons as are marked below its subject. -/
theorem exists_depicts {subject : Subject K} {summary : Summary} (acyclic : layout.Acyclic)
    (success : compile layout settings subject = .ok (program, summary)) {marked : List String}
    (stands : standsFor layout subject.asReference = .ok root)
    (comparable : Comparable layout (Native layout) (Foreign layout) root)
    (marks : Marks layout [root] marked) :
    ∃ drawing, program.Depicts drawing ∧ Covers drawing marked := by
  rcases compile_cases success with ⟨first, transform, defined, passes, edge, outlined, rfl, rfl⟩ |
    ⟨runs, edge, rfl, rfl⟩
  · have called : subject.isCalled layout = true := by
      simpa [Edge.isInline] using (subject_isInline edge).symm
    have same := (root?_eq_some_iff called).mp (subject_calls edge)
    cases Except.ok.inj (same.symm.trans stands)
    obtain ⟨assembled, _, reachable⟩ := assembled_of_outline transform outlined
    have reached : ∀ fragment ∈ defined.fragments, Within layout (Native layout) root fragment := by
      intro fragment member
      obtain ⟨length, way⟩ := (reachable fragment).mp member
      exact Comparable.within_of_walk way
    exact assembled.fulfills comparable acyclic reached root ((reachable root).mpr ⟨0, .start⟩)
      marked marks transform
  · cases subject with
    | node key => cases subject_node_eq_ok edge
    | reference reference =>
      rcases edge_cases edge with ⟨_, _, _, call, _⟩ | ⟨_, _, flattened, same, _, _, _, flattens, drawn⟩
      · cases call
      · cases Edge.inline.inj same
        refine ⟨_, ⟨_, rfl, (Program.Adds.runs runs .identity).draws⟩, ?_⟩
        have kept : LayerMap.identity.kept? = some := rfl
        rw [Covers, layers_of_draw drawn root.node, kept, List.filterMap_some]
        exact perm_marks_of_flatten flattens stands marks

private theorem Comparable.native {subject : Subject K}
    (comparable : ∀ root, standsFor layout subject.asReference = .ok root →
      Comparable layout anywhere anywhere root) :
    ∀ root, standsFor layout subject.asReference = .ok root →
      Comparable layout (Native layout) (Foreign layout) root := by
  intro root stands
  obtain ⟨charted, veiled, expandable⟩ := comparable root stands
  exact ⟨charted, veiled, fun fragment within node found child member _ =>
    expandable fragment within.anyhow node found child member trivial⟩

/-- Whether it is called or not, a subject compiles if what it stands for can be marked. -/
theorem exists_compile_iff_stands {subject : Subject K} (acyclic : layout.Acyclic)
    (lenient : settings.strict = false)
    (comparable : ∀ root, standsFor layout subject.asReference = .ok root →
      Comparable layout (Native layout) (Foreign layout) root) :
    (∃ result, compile layout settings subject = .ok result) ↔
      ∃ root, standsFor layout subject.asReference = .ok root ∧ Marked layout root := by
  rcases Bool.eq_false_or_eq_true (subject.isCalled layout) with called | expanded
  · exact exists_compile_iff_marked acyclic lenient called fun root found =>
      comparable root ((root?_eq_some_iff called).mp found)
  · cases subject with
    | node key => cases expanded
    | reference reference =>
      rw [exists_compile_iff_of_foreign lenient expanded]
      exact exists_flatten_iff acyclic fun root stands => (comparable root stands).veiled

/-- Layouts that differ only in transforms compile alike, and onto the same layers, where it makes no
difference whether a child is expanded in place. -/
theorem compile_layers {first second : Layout K} {subject other : Subject K}
    (alike : first.plan = second.plan) (same : subject.asReference.plan = other.asReference.plan)
    (acyclic : first.Acyclic) (acyclic' : second.Acyclic) (lenient : settings.strict = false)
    (comparable : ∀ root, standsFor first subject.asReference = .ok root →
      Comparable first anywhere anywhere root) :
    ((∃ result, compile first settings subject = .ok result) ↔
      ∃ result, compile second settings other = .ok result) ∧
    ∀ program summary program' summary', compile first settings subject = .ok (program, summary) →
      compile second settings other = .ok (program', summary') →
      ∃ drawing drawing', (∀ result, program.Depicts result ↔ result = drawing) ∧
        (∀ result, program'.Depicts result ↔ result = drawing') ∧
        ∀ layer, (drawing.on layer).length = (drawing'.on layer).length := by
  have stands (root : Fragment) : standsFor first subject.asReference = .ok root ↔
      standsFor second other.asReference = .ok root :=
    ⟨standsFor_of_plan alike same, standsFor_of_plan alike.symm same.symm⟩
  have marked (root : Fragment) : Marked first root ↔ Marked second root :=
    exists_congr fun _ => ⟨.of_plan alike, .of_plan alike.symm⟩
  have comparable' (root : Fragment) (found : standsFor second other.asReference = .ok root) :
      Comparable second anywhere anywhere root :=
    (comparable root ((stands root).mpr found)).of_plan alike
  have firstCompiles := exists_compile_iff_stands acyclic lenient (Comparable.native comparable)
  have secondCompiles := exists_compile_iff_stands acyclic' lenient (Comparable.native comparable')
  constructor
  · rw [firstCompiles, secondCompiles]
    exact exists_congr fun root => and_congr (stands root) (marked root)
  · intro program summary program' summary' compiled compiled'
    obtain ⟨root, found, layers, marks⟩ := firstCompiles.mp ⟨_, compiled⟩
    have found' := (stands root).mp found
    obtain ⟨drawing, depicts, covers⟩ :=
      exists_depicts acyclic compiled found (Comparable.native comparable root found) marks
    obtain ⟨drawing', depicts', covers'⟩ := exists_depicts acyclic' compiled' found'
      (Comparable.native comparable' root found') (marks.of_plan alike)
    refine ⟨drawing, drawing', fun result => ⟨fun draws => ?_, fun same => same ▸ depicts⟩,
      fun result => ⟨fun draws => ?_, fun same => same ▸ depicts'⟩, fun layer => ?_⟩
    · exact Program.Performs.unique draws depicts
    · exact Program.Performs.unique draws depicts'
    · rw [covers.length_on, covers'.length_on]

/-- A pad that is placed twice, the second time on another layer and under some transform. -/
def framed (placed : Transform Float) : Layout Float where
  name := "framed"
  nodes := .ofSlots [
    .fresh ⟨"pad", LayerGeometry.add .empty "metal" [.rectangle ⟨0, 0⟩ ⟨1, 1⟩, ⟨[]⟩], []⟩,
    .fresh ⟨"pair", .empty, [("left", .toNode (.ofParts 1 1)),
      ("right", ⟨.node (.ofParts 1 1), placed, .rename "metal" "poly"⟩)]⟩]
  references := .empty

private theorem plan_framed (placed other : Transform Float) :
    (framed placed).plan = (framed other).plan := rfl

/-- The pair, on the layers of a process. -/
def processed : Subject Float :=
  .reference ⟨.node (.ofParts 2 1), .identity, .ofList [("metal", some "m1"), ("poly", some "m2")]⟩

theorem framed_layers : ∃ program summary program' summary' drawing drawing',
    compile (framed (.translate 2 0)) ⟨1, 1, false⟩ processed = .ok (program, summary) ∧
      compile (framed (.scale 2 2)) ⟨1, 1, false⟩ processed = .ok (program', summary') ∧
      program.Depicts drawing ∧ program'.Depicts drawing' ∧
      ∀ layer, (drawing.on layer).length = (drawing'.on layer).length := by
  have compiled : (compile (framed (.translate 2 0)) ⟨1, 1, false⟩ processed).isOk := by
    decide +kernel
  have comparable (root : Fragment)
      (found : standsFor (framed (.translate 2 0)) processed.asReference = .ok root) :
      Comparable (framed (.translate 2 0)) anywhere anywhere root := by
    have first : standsFor (framed (.translate 2 0)) processed.asReference =
        .ok ⟨.ofParts 2 1, .ofList [("metal", some "m1"), ("poly", some "m2")]⟩ := by
      decide +kernel
    cases Except.ok.inj (first.symm.trans found)
    exact .of_listed [
      ⟨.ofParts 2 1, .ofList [("metal", some "m1"), ("poly", some "m2")]⟩,
      ⟨.ofParts 1 1, .ofList [("metal", some "m1"), ("poly", some "m2")]⟩,
      ⟨.ofParts 1 1, .rename "metal" "m2"⟩] (by decide +kernel) (by decide +kernel)
      (by decide +kernel) (by decide +kernel) (by unfold anywhere; decide +kernel)
  have acyclic : (framed (.translate 2 0)).Acyclic :=
    Layout.acyclic_of_grounded (Layout.grounded_of_validate rfl)
  have acyclic' : (framed (.scale 2 2)).Acyclic :=
    Layout.acyclic_of_grounded (Layout.grounded_of_validate rfl)
  have lenient : (⟨1, 1, false⟩ : Settings Float).strict = false := rfl
  obtain ⟨compiles, layers⟩ := compile_layers (plan_framed (.translate 2 0) (.scale 2 2))
    (rfl : processed.asReference.plan = processed.asReference.plan) acyclic acyclic' lenient comparable
  obtain ⟨⟨program, summary⟩, success⟩ := exists_eq_ok_iff.mpr compiled
  obtain ⟨⟨program', summary'⟩, success'⟩ := compiles.mp ⟨_, success⟩
  obtain ⟨drawing, drawing', depicts, depicts', agree⟩ := layers _ _ _ _ success success'
  exact ⟨program, summary, program', summary', drawing, drawing', success, success',
    (depicts drawing).mpr rfl, (depicts' drawing').mpr rfl, agree⟩

/-- Three cells, each with one child that is placed under some transform: a cell with nothing but an
empty layer, one with a part that is discarded, and a pad under a renaming. -/
def annex (placed : Transform Float) : Layout Float where
  name := "annex"
  nodes := .ofSlots [
    ⟨1, some ⟨"blank", LayerGeometry.add .empty "mark" [⟨[]⟩], []⟩, by simp⟩,
    ⟨1, some ⟨"pad", LayerGeometry.add .empty "metal" [.rectangle ⟨0, 0⟩ ⟨1, 1⟩], []⟩, by simp⟩,
    ⟨1, some ⟨"part", .empty, []⟩, by simp⟩,
    ⟨1, some ⟨"veil", .empty, [("part", ⟨.node (.ofParts 3 1), .identity, .discardAll⟩)]⟩, by simp⟩,
    ⟨1, some ⟨"first", .empty, [("only", ⟨.node (.ofParts 1 1), placed, .rename "metal" "poly"⟩)]⟩,
      by simp⟩,
    ⟨1, some ⟨"second", .empty, [("only", ⟨.node (.ofParts 4 1), placed, .identity⟩)]⟩, by simp⟩,
    ⟨1, some ⟨"third", .empty, [("only", ⟨.node (.ofParts 2 1), placed, .rename "metal" "poly"⟩)]⟩,
      by simp⟩]
  references := .empty

/-- The annex without the part. -/
def pruned (placed : Transform Float) : Layout Float := (annex placed).edit (.removeNode (.ofParts 3 1))

private theorem plan_pruned (placed other : Transform Float) :
    (pruned placed).plan = (pruned other).plan := rfl

private theorem pruned_acyclic (placed : Transform Float) : (pruned placed).Acyclic := by
  have grounded := Layout.grounded_of_validate (rfl : (annex placed).validate = .ok ())
  have sound : (annex placed).Sound 0 := ⟨Layout.acyclic_of_grounded grounded, fun entry target step =>
    .inl (Layout.closed_of_grounded grounded entry target step)⟩
  exact (sound.run [.removeNode (.ofParts 3 1)] (by decide)).acyclic

/-- Without a condition transforms do make a difference: each of these subjects compiles under one
transform and not under the other. -/
theorem compile_layers_fails : (pruned .identity).plan = (pruned (.scale 2 2)).plan ∧
    (pruned .identity).Acyclic ∧ (pruned (.scale 2 2)).Acyclic ∧ ∀ subject ∈ [
        .node (.ofParts 5 1), .node (.ofParts 6 1),
        .reference ⟨.node (.ofParts 7 1), .identity, .rename "metal" "m1"⟩],
      ¬ ((∃ result, compile (pruned .identity) ⟨1, 1, false⟩ subject = .ok result) ↔
        ∃ result, compile (pruned (.scale 2 2)) ⟨1, 1, false⟩ subject = .ok result) := by
  refine ⟨plan_pruned _ _, pruned_acyclic _, pruned_acyclic _, ?_⟩
  simp only [exists_eq_ok_iff]
  decide +kernel

end MaskLayout.Cif
