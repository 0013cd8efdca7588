import MaskLayout.Proofs.Cif.Depiction
import MaskLayout.Proofs.Cif.Expansion
import MaskLayout.Proofs.Cif.Success
import MaskLayout.Proofs.Cif.WellFormed
import MaskLayout.Proofs.Layout.Runs

/-!
Compiling and flattening look at different things. A routine passes over a layer on which nothing is
drawn, and goes on below a fragment that discards every layer; an expanded child is read in the map
around it only after its own maps have been composed. Where none of this makes a difference, a design
compiles exactly when it can be flattened.
-/
namespace MaskLayout.Cif

open BreadthFirst

variable {K : Type} [Scalar K]

/-- Below a root along called references, with some references expanded in place, compiling and
flattening have the same to look at. -/
structure Comparable (layout : Layout K) (called expanded : Reference K → Prop) (root : Fragment) :
    Prop where
  charted : Charted layout root
  veiled : Veiled layout root
  expandable : ∀ fragment, Within layout called root fragment →
    ∀ node, layout.node fragment.node = .ok node → ∀ child ∈ node.children, expanded child.2 →
      ∀ inner, standsFor layout child.2 = .ok inner → Expandable layout fragment.layerMap inner

/-- The references that are called. -/
def Native (layout : Layout K) (reference : Reference K) : Prop := layout.isNative reference = true

/-- The references that are expanded in place. -/
def Foreign (layout : Layout K) (reference : Reference K) : Prop := layout.isNative reference = false

variable {layout : Layout K} {settings : Settings K}

theorem native_or_foreign (layout : Layout K) (reference : Reference K) :
    Native layout reference ∨ Foreign layout reference :=
  Bool.eq_false_or_eq_true _

/-- What is looked up for a node: with everything charted, drawing looks at the same layers. -/
theorem Charted.exists_draw_iff {fragment : Fragment} (charted : Charted layout fragment)
    {node : Node K} (found : layout.node fragment.node = .ok node) :
    (∃ runs, draw fragment.layerMap node.geometry = .ok runs) ↔
      ∀ entry ∈ node.geometry.entries, ∃ destination,
        fragment.layerMap.lookup entry.1 = .ok destination := by
  rw [Cif.exists_draw_iff]
  constructor
  · intro known entry listed
    by_cases blank : ∀ polygon ∈ entry.2, polygon.isEmpty
    · exact charted fragment (.refl fragment) node found entry listed blank
    · refine known entry.1 (LayerGeometry.mem_marks_iff.mpr ⟨entry, listed, rfl, fun nothing => blank ?_⟩)
      simpa using nothing
  · intro known layer marked
    obtain ⟨entry, listed, rfl, _⟩ := LayerGeometry.mem_marks_iff.mp marked
    exact known entry listed

namespace Comparable

variable {root fragment : Fragment}

/-- A design in which only leaves are expanded in place, gone through fragment by fragment. -/
theorem of_listed (fragments : List Fragment) {called expanded : Reference K → Prop}
    (start : root ∈ fragments)
    (closed : ∀ upper ∈ fragments, ∀ node ∈ (layout.node upper.node).toOption,
      ∀ child ∈ node.children, ∀ lower ∈ (reach layout upper.layerMap child.2).toOption,
        lower ∈ fragments)
    (kept : ∀ upper ∈ fragments, upper.layerMap ≠ .discardAll)
    (known : ∀ upper ∈ fragments, ∀ node ∈ (layout.node upper.node).toOption,
      ∀ entry ∈ node.geometry.entries, (upper.layerMap.lookup entry.1).isOk)
    (leaves : ∀ upper ∈ fragments, ∀ node ∈ (layout.node upper.node).toOption,
      ∀ child ∈ node.children, expanded child.2 → ∀ inner ∈ (standsFor layout child.2).toOption,
        ∃ leaf ∈ (layout.node inner.node).toOption, leaf.children.isEmpty ∧
          LayerMap.Associates [inner.layerMap] upper.layerMap leaf.geometry.names) :
    Comparable layout called expanded root where
  charted upper within node found entry listed _ := by
    have member := within.mem_of_closed start closed
    exact exists_eq_ok_iff.mpr (known upper member node (mem_toOption_iff.mpr found) entry listed)
  veiled upper within discards := absurd discards (kept upper (within.mem_of_closed start closed))
  expandable upper within node found child listed chosen inner stands := by
    have member := within.mem_of_closed start closed
    obtain ⟨leaf, there, empty, associates⟩ := leaves upper member node (mem_toOption_iff.mpr found)
      child listed chosen inner (mem_toOption_iff.mpr stands)
    exact .of_leaf (mem_toOption_iff.mp there) (List.isEmpty_iff.mp empty) associates

section Steps

variable (comparable : Comparable layout (Native layout) (Foreign layout) root)
  (within : Within layout (Native layout) root fragment)

include comparable within

/-- A child that is expanded in place draws what a call would mark. -/
theorem expandable_child {node : Node K} {child : String × Reference K}
    (found : layout.node fragment.node = .ok node) (member : child ∈ node.children)
    (foreign : Foreign layout child.2) :
    (∀ inner, standsFor layout child.2 = .ok inner → Expandable layout fragment.layerMap inner) ∧
      ∀ lower, reach layout fragment.layerMap child.2 = .ok lower → Charted layout lower := by
  refine ⟨comparable.expandable fragment within node found child member foreign, fun lower reached => ?_⟩
  have further : Within layout anywhere fragment lower := .child found member trivial reached
  exact comparable.charted.within (within.anyhow.trans further)

private theorem exists_edge_iff (acyclic : layout.Acyclic) (lenient : settings.strict = false)
    {node : Node K} {child : String × Reference K} (found : layout.node fragment.node = .ok node)
    (member : child ∈ node.children) :
    (∃ made, edge layout settings fragment.layerMap child.1 child.2 = .ok made) ↔
      ∃ lower, reach layout fragment.layerMap child.2 = .ok lower ∧
        (Foreign layout child.2 → Marked layout lower) := by
  rcases native_or_foreign layout child.2 with native | foreign
  · have called : ¬ Foreign layout child.2 := fun foreign => by cases native.symm.trans foreign
    rw [exists_call_iff native]
    simp [called]
  · obtain ⟨expandable, charted⟩ := comparable.expandable_child within found member foreign
    rw [exists_inline_iff lenient foreign]
    constructor
    · intro success
      obtain ⟨flattened, flattens, drawn⟩ := success
      obtain ⟨lower, marked, reached, marks, _⟩ :=
        Expandable.exists_marks acyclic expandable charted flattens (exists_draw_iff.mp drawn)
      exact ⟨lower, reached, fun _ => ⟨marked, marks⟩⟩
    · intro success
      obtain ⟨lower, reached, marked⟩ := success
      obtain ⟨flattened, flattens, known⟩ :=
        Expandable.exists_flattened acyclic expandable reached (marked foreign)
      exact ⟨flattened, flattens, exists_draw_iff.mpr known⟩

/-- A fragment can be marked if it has a body, and those that it calls can be marked. -/
theorem marked_iff (acyclic : layout.Acyclic) (lenient : settings.strict = false) :
    Marked layout fragment ↔ (∃ made, body layout settings fragment = .ok made) ∧
      ∀ callee ∈ callees layout fragment, Marked layout callee := by
  rw [Cif.marked_iff, exists_body_iff]
  constructor
  · intro marked
    obtain ⟨node, found, known, each⟩ := marked
    have charted := comparable.charted.within within
    refine ⟨⟨node, found, (charted.exists_draw_iff found).mpr known, fun child member => ?_⟩,
      fun callee called => ?_⟩
    · obtain ⟨lower, reached, below⟩ := each child member
      exact (comparable.exists_edge_iff within acyclic lenient found member).mpr
        ⟨lower, reached, fun _ => below⟩
    · obtain ⟨child, member, _, reached⟩ := (mem_callees_iff found).mp called
      obtain ⟨lower, same, below⟩ := each child member
      exact Except.ok.inj (same.symm.trans reached) ▸ below
  · intro parts
    obtain ⟨⟨node, found, drawn, edges⟩, below⟩ := parts
    have charted := comparable.charted.within within
    refine ⟨node, found, (charted.exists_draw_iff found).mp drawn, fun child member => ?_⟩
    obtain ⟨lower, reached, marked⟩ :=
      (comparable.exists_edge_iff within acyclic lenient found member).mp (edges child member)
    refine ⟨lower, reached, ?_⟩
    rcases native_or_foreign layout child.2 with native | foreign
    · exact below lower ((mem_callees_iff found).mpr ⟨child, member, native, reached⟩)
    · exact marked foreign

end Steps

theorem within_of_walk {length : Nat} (way : Walk (callees layout) root length fragment) :
    Within layout (Native layout) root fragment := by
  induction way with
  | start => exact .refl root
  | @step length item other way called ih =>
    refine ih.trans ?_
    unfold callees at called
    split at called
    · rename_i node found
      obtain ⟨child, member, callee⟩ := List.mem_filterMap.mp called
      obtain ⟨native, reached⟩ := callee?_eq_some_iff.mp callee
      exact .child found member native reached
    · cases called

/-- A root can be marked exactly when every fragment that calls lead to has a body. -/
theorem marked_root_iff (comparable : Comparable layout (Native layout) (Foreign layout) root)
    (acyclic : layout.Acyclic) (lenient : settings.strict = false) :
    Marked layout root ↔ ∀ length fragment, Walk (callees layout) root length fragment →
      ∃ made, body layout settings fragment = .ok made := by
  constructor
  · intro marked length fragment way
    have lower : Marked layout fragment := by
      induction way with
      | start => exact marked
      | step way called ih =>
        exact ((comparable.marked_iff (within_of_walk way) acyclic lenient).mp ih).2 _ called
    exact ((comparable.marked_iff (within_of_walk way) acyclic lenient).mp lower).1
  · intro bodies
    suffices each : ∀ entry fragment length, Target.node fragment.node = entry →
        Walk (callees layout) root length fragment → Marked layout fragment from
      each _ root 0 rfl .start
    intro entry
    induction entry using acyclic.wellFounded.induction with
    | h entry ih =>
      intro fragment length same way
      refine (comparable.marked_iff (within_of_walk way) acyclic lenient).mpr
        ⟨bodies length fragment way, fun callee called => ?_⟩
      exact ih _ (same ▸ below_of_callees called) callee (length + 1) rfl (.step way called)

end Comparable

/-- A subject that is called has the fragment of its reference as the root. -/
theorem root?_eq_some_iff {subject : Subject K} {root : Fragment}
    (called : subject.isCalled layout = true) :
    subject.root? layout = some root ↔ standsFor layout subject.asReference = .ok root := by
  cases subject with
  | node key =>
    have stands : standsFor layout (.toNode key) = .ok ⟨key, .identity⟩ := by
      simp [standsFor, Layout.placement, Layout.chain, Layout.follow, Reference.toNode, Reference.plain,
        Chain.layerMap, Chain.outermost, LayerMap.compose, fragmentOf, bind, Except.bind, pure, Except.pure,
        Except.map]
    simp only [Subject.root?, Subject.asReference, stands, Option.some.injEq, Except.ok.injEq]
  | reference reference =>
    rw [Subject.root?, Subject.asReference, callee?_eq_some_iff, reach_eq_ok_iff]
    constructor
    · intro found
      obtain ⟨_, inner, stands, same, fits⟩ := found
      rw [LayerMap.compose_identity] at fits
      rw [stands]
      exact congrArg Except.ok (by cases root; cases inner; simp_all)
    · intro stands
      exact ⟨called, root, stands, rfl, LayerMap.compose_identity root.layerMap⟩

/-- A subject that is called compiles if its fragment has an outline. -/
theorem exists_compile_iff (acyclic : layout.Acyclic) {subject : Subject K}
    (called : subject.isCalled layout = true) :
    (∃ result, compile layout settings subject = .ok result) ↔
      ∃ root, subject.root? layout = some root ∧ ∃ result, outline layout settings root = .ok result := by
  constructor
  · intro success
    obtain ⟨⟨program, summary⟩, compiled⟩ := success
    rcases compile_cases compiled with ⟨root, _, defined, passes, edge, outlined, _⟩ | ⟨_, edge, _⟩
    · exact ⟨root, subject_calls edge, (defined, passes), outlined⟩
    · have inline := subject_isInline edge
      simp [Edge.isInline, called] at inline
  · intro success
    obtain ⟨root, found, ⟨defined, passes⟩, outlined⟩ := success
    have first : ∃ transform, subject.edge layout settings = .ok (.call root transform) := by
      cases subject with
      | node key =>
        cases Option.some.inj found
        obtain ⟨made, built⟩ :=
          (exists_outline_iff acyclic).mp ⟨(defined, passes), outlined⟩ 0 ⟨key, .identity⟩ .start
        obtain ⟨node, present, _⟩ := body_eq_ok built
        exact ⟨.identity, bind_eq_ok_iff.mpr ⟨node, ofLayout_eq_ok_iff.mpr present, rfl⟩⟩
      | reference reference =>
        have callee : callee? layout .identity reference = some root := found
        exact edge_of_reach called (callee?_eq_some_iff.mp callee).2
    obtain ⟨transform, edge⟩ := first
    exact ⟨_, compile_of_outline edge outlined⟩

/-- A subject that is called compiles if what it stands for can be marked. -/
theorem exists_compile_iff_marked {subject : Subject K} (acyclic : layout.Acyclic)
    (lenient : settings.strict = false) (called : subject.isCalled layout = true)
    (comparable : ∀ root, subject.root? layout = some root →
      Comparable layout (Native layout) (Foreign layout) root) :
    (∃ result, compile layout settings subject = .ok result) ↔
      ∃ root, standsFor layout subject.asReference = .ok root ∧ Marked layout root := by
  rw [exists_compile_iff acyclic called]
  refine exists_congr fun root => ?_
  rw [← root?_eq_some_iff called]
  refine and_congr_right fun found => ?_
  rw [exists_outline_iff acyclic, (comparable root found).marked_root_iff acyclic lenient]

/-- A subject that no call can carry compiles if it can be flattened. -/
theorem exists_compile_iff_of_foreign {reference : Reference K} (lenient : settings.strict = false)
    (foreign : Foreign layout reference) :
    (∃ result, compile layout settings (.reference reference) = .ok result) ↔
      ∃ flattened, layout.flatten reference = .ok flattened := by
  have expanded : (∃ made, edge layout settings .identity rootName reference = .ok made) ↔
      ∃ flattened, layout.flatten reference = .ok flattened ∧
        ∃ runs, draw .identity flattened.geometry = .ok runs := exists_inline_iff lenient foreign
  constructor
  · intro success
    obtain ⟨_, compiled⟩ := success
    rw [compile_eq] at compiled
    obtain ⟨made, built, _⟩ := bind_eq_ok_iff.mp compiled
    obtain ⟨flattened, flattens, _⟩ := expanded.mp ⟨made, built⟩
    exact ⟨flattened, flattens⟩
  · intro success
    obtain ⟨flattened, flattens⟩ := success
    have drawn : ∃ runs, draw .identity flattened.geometry = .ok runs :=
      exists_draw_iff.mpr fun layer _ => ⟨some layer, rfl⟩
    obtain ⟨made, built⟩ := expanded.mpr ⟨flattened, flattens, drawn⟩
    have inline : made.isInline = true := by
      rw [edge_isInline built]
      exact congrArg not foreign
    cases made with
    | call fragment transform => cases inline
    | inline runs => exact ⟨_, compile_of_inline built⟩

/-- A design compiles exactly when it can be flattened, where the two have the same to look at. -/
theorem compile_iff_flatten {subject : Subject K} (acyclic : layout.Acyclic)
    (lenient : settings.strict = false)
    (comparable : ∀ root, subject.root? layout = some root →
      Comparable layout (Native layout) (Foreign layout) root) :
    (∃ result, compile layout settings subject = .ok result) ↔
      ∃ flattened, layout.flatten subject.asReference = .ok flattened := by
  rcases Bool.eq_false_or_eq_true (subject.isCalled layout) with called | expanded
  · have veiled (root : Fragment) (stands : standsFor layout subject.asReference = .ok root) :
        Veiled layout root := (comparable root ((root?_eq_some_iff called).mpr stands)).veiled
    rw [exists_compile_iff_marked acyclic lenient called comparable, exists_flatten_iff acyclic veiled]
  · cases subject with
    | node key => cases expanded
    | reference reference => exact exists_compile_iff_of_foreign lenient expanded

/-- A row of the gallery's pairs, on other layers. -/
def recoloured : Reference Float :=
  ⟨.node (.ofParts 3 1), .translate 0 5, .ofList [("metal", some "m1"), ("poly", some "m2")]⟩

theorem recoloured_compiles : ∃ result flattened,
    compile gallery ⟨1, 1, false⟩ (.reference recoloured) = .ok result ∧
      gallery.flatten recoloured = .ok flattened := by
  have compiled : (compile gallery ⟨1, 1, false⟩ (.reference recoloured)).isOk := by
    decide +kernel
  have comparable (root : Fragment)
      (found : (Subject.reference recoloured).root? gallery = some root) :
      Comparable gallery (Native gallery) (Foreign gallery) root := by
    have first : (Subject.reference recoloured).root? gallery =
        some ⟨.ofParts 3 1, .ofList [("metal", some "m1"), ("poly", some "m2")]⟩ := by
      decide +kernel
    cases Option.some.inj (first.symm.trans found)
    exact .of_listed [
      ⟨.ofParts 3 1, .ofList [("metal", some "m1"), ("poly", some "m2")]⟩,
      ⟨.ofParts 2 1, .ofList [("metal", some "m1"), ("poly", some "m2")]⟩,
      ⟨.ofParts 1 1, .ofList [("metal", some "m1"), ("poly", some "m2")]⟩,
      ⟨.ofParts 1 1, .rename "metal" "m2"⟩] (by decide +kernel) (by decide +kernel)
      (by decide +kernel) (by decide +kernel) (by unfold Foreign; decide +kernel)
  obtain ⟨result, success⟩ := exists_eq_ok_iff.mpr compiled
  obtain ⟨flattened, flattens⟩ :=
    (compile_iff_flatten gallery_acyclic rfl comparable).mp ⟨result, success⟩
  exact ⟨result, flattened, success, flattens⟩

/-- Cells at which compiling and flattening look differently: one with a layer on which nothing is
drawn, one with a part that is discarded and that was removed, and one with a pad that is placed twice
as large under a renaming. -/
def cellar : List (Layout.Edit Float) := [
  .addNode (.addPolygons (.empty "blank") "mark" [⟨[]⟩]),
  .addNode (.addPolygons (.empty "pad") "metal" [.rectangle ⟨0, 0⟩ ⟨1, 1⟩]),
  .addNode (.empty "part"),
  .addNode ⟨"veil", .empty, [("part", ⟨.node (.ofParts 3 1), .identity, .discardAll⟩)], by simp, by simp⟩,
  .addNode ⟨"twice", .empty, [("pad", ⟨.node (.ofParts 2 1), .scale 2 2, .rename "metal" "poly"⟩)],
    by simp, by simp⟩,
  .removeNode (.ofParts 3 1)]

/-- Without a condition the two part ways: each of these references can either be compiled or be
flattened, but not both. -/
theorem compile_iff_flatten_fails : ((Layout.empty "").run cellar : Layout Float).Acyclic ∧
    ∀ reference ∈ [
        ⟨.node (.ofParts 1 1), .identity, .rename "metal" "poly"⟩,
        .toNode (.ofParts 4 1),
        ⟨.node (.ofParts 5 1), .identity, .rename "metal" "m1"⟩],
      ¬ ((∃ result, compile ((Layout.empty "").run cellar) ⟨1, 1, false⟩ (.reference reference) =
          .ok result) ↔
        ∃ flattened, ((Layout.empty "").run cellar).flatten reference = .ok flattened) := by
  have few : cellar.countP Layout.Edit.isRemoval = 1 := rfl
  refine ⟨((Layout.Origin.empty "").sound.run cellar (by rw [few]; decide)).acyclic, ?_⟩
  simp only [exists_eq_ok_iff]
  decide +kernel

end MaskLayout.Cif
