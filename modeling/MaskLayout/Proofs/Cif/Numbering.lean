import Mathlib.Algebra.GroupWithZero.Nat
import MaskLayout.Binary64.Scalar
import MaskLayout.Proofs.Cif.Compile

/-!
What a successful compilation returns. A subject that is called has its own fragment as the root of
the search; the routines are those of the fragments that the search discovers, in that order.
-/
namespace MaskLayout.Cif

open BreadthFirst

variable {K : Type} [Scalar K] {layout : Layout K} {settings : Settings K}

/-- Whether a subject is called, and not expanded into a routine of its own. -/
def Subject.isCalled (layout : Layout K) : Subject K → Bool
  | .node _ => true
  | .reference root => layout.isNative root

/-- The fragment of a subject that is called. -/
def Subject.root? (layout : Layout K) : Subject K → Option Fragment
  | .node key => some ⟨key, .identity⟩
  | .reference root => callee? layout .identity root

theorem subject_node_eq_ok {key : NodeKey} {result : Edge K}
    (success : (Subject.node key).edge layout settings = .ok result) :
    result = .call ⟨key, .identity⟩ .identity := by
  obtain ⟨_, _, same⟩ := bind_eq_ok_iff.mp success
  exact (Except.ok.inj same).symm

theorem subject_calls {subject : Subject K} {root : Fragment} {transform : Transform K}
    (success : subject.edge layout settings = .ok (.call root transform)) :
    subject.root? layout = some root := by
  cases subject with
  | node key => rw [(Edge.call.inj (subject_node_eq_ok success)).1]; rfl
  | reference reference =>
    have calls := edge_calls success
    cases found : callee? layout .identity reference with
    | none => simp [Edge.calls, found] at calls
    | some fragment =>
      rw [found] at calls
      simp only [Edge.calls, Option.toList_some, List.cons.injEq, and_true] at calls
      rw [calls]
      exact found

theorem subject_isInline {subject : Subject K} {result : Edge K}
    (success : subject.edge layout settings = .ok result) :
    result.isInline = !subject.isCalled layout := by
  cases subject with
  | node key => rw [subject_node_eq_ok success]; rfl
  | reference reference => exact edge_isInline success

/-- A compilation either outlines the fragment that its subject calls, or draws the subject. -/
theorem compile_cases {subject : Subject K} {program : Program K} {summary : Summary}
    (success : compile layout settings subject = .ok (program, summary)) :
    (∃ root transform defined passes,
      subject.edge layout settings = .ok (.call root transform) ∧
      outline layout settings root = .ok (defined, passes) ∧
      program = ⟨defined.routines, defined.number root, transform⟩ ∧
      summary = ⟨defined.length, (defined.flatMap (·.2.edges)).countP Edge.isInline, passes⟩) ∨
    (∃ runs, subject.edge layout settings = .ok (.inline runs) ∧
      program = ⟨[runs.flatMap Run.lines], 1, .identity⟩ ∧ summary = ⟨1, 1, 1⟩) := by
  rw [compile_eq] at success
  obtain ⟨edge, found, rest⟩ := bind_eq_ok_iff.mp success
  cases edge with
  | inline runs =>
    obtain ⟨rfl, rfl⟩ := Prod.mk.inj (Except.ok.inj rest)
    exact .inr ⟨runs, found, rfl, rfl⟩
  | call root transform =>
    obtain ⟨⟨defined, passes⟩, outlined, rest⟩ := bind_eq_ok_iff.mp rest
    obtain ⟨rfl, rfl⟩ := Prod.mk.inj (Except.ok.inj rest)
    exact .inl ⟨root, transform, defined, passes, found, outlined, rfl, rfl⟩

theorem compile_of_outline {subject : Subject K} {root : Fragment} {transform : Transform K}
    {defined : Defined K} {passes : Nat}
    (called : subject.edge layout settings = .ok (.call root transform))
    (outlined : outline layout settings root = .ok (defined, passes)) :
    compile layout settings subject = .ok (⟨defined.routines, defined.number root, transform⟩,
      ⟨defined.length, (defined.flatMap (·.2.edges)).countP Edge.isInline, passes⟩) := by
  rw [compile_eq]
  exact bind_eq_ok_iff.mpr ⟨_, called, bind_eq_ok_iff.mpr ⟨_, outlined, rfl⟩⟩

theorem compile_of_inline {subject : Subject K} {runs : List (Run K)}
    (expanded : subject.edge layout settings = .ok (.inline runs)) :
    compile layout settings subject =
      .ok (⟨[runs.flatMap Run.lines], 1, .identity⟩, ⟨1, 1, 1⟩) := by
  rw [compile_eq]
  exact bind_eq_ok_iff.mpr ⟨_, expanded, rfl⟩

theorem outline_eq_ok {root : Fragment} {defined : Defined K} {count : Nat}
    (success : outline layout settings root = .ok (defined, count)) :
    Sweeps (callees layout) [] [root] defined.fragments count ∧ defined.Made layout settings :=
  passes_eq_ok success (by simp [Defined.Made])

private theorem Defined.Made.expansions {defined : Defined K} (made : defined.Made layout settings) :
    (defined.flatMap (·.2.edges)).countP Edge.isInline =
      (defined.fragments.map (expansions layout)).sum := by
  rw [List.countP_flatMap, Defined.fragments, List.map_map]
  congr 1
  apply List.map_congr_left
  intro entry member
  exact body_expansions (made entry member)

private theorem Defined.Made.routines {defined : Defined K} (made : defined.Made layout settings) :
    List.Forall₂ (fun fragment routine => ∃ body, Cif.body layout settings fragment = .ok body ∧
      routine = body.lines defined.number) defined.fragments defined.routines := by
  unfold Defined.fragments Defined.routines
  rw [List.forall₂_map_left_iff, List.forall₂_map_right_iff, List.forall₂_same]
  intro entry member
  exact ⟨entry.2, made entry member, rfl⟩

/-- A program with the fragments that its routines are made of, searched from a root. -/
structure Numbered (layout : Layout K) (settings : Settings K) (root : Fragment)
    (fragments : List Fragment) (program : Program K) (summary : Summary) : Prop where
  /-- The routines are numbered in the order in which the search discovers their fragments. -/
  discovered : Search (callees layout) [root] [root] fragments
  distinct : fragments.Nodup
  reachable : ∀ fragment,
    fragment ∈ fragments ↔ ∃ length, Walk (callees layout) root length fragment
  routines : List.Forall₂ (fun fragment routine => ∃ made, body layout settings fragment = .ok made ∧
    routine = made.lines fun callee => fragments.idxOf callee + 1) fragments program.routines
  first : program.root = 1
  count : summary.routines = fragments.length
  passes : ∃ distance, Farthest (callees layout) root distance ∧ summary.passes = distance + 2
  expansions : summary.inlineExpansions = (fragments.map (expansions layout)).sum

/-- A subject that is called is compiled breadth first: one routine for each fragment that can be
reached from its own. -/
theorem compile_numbered {subject : Subject K} {program : Program K} {summary : Summary}
    (called : subject.isCalled layout = true)
    (success : compile layout settings subject = .ok (program, summary)) :
    ∃ root fragments, subject.root? layout = some root ∧
      Numbered layout settings root fragments program summary := by
  rcases compile_cases success with ⟨root, transform, defined, count, edge, outlined, rfl, rfl⟩ |
    ⟨runs, edge, _⟩
  · obtain ⟨sweeps, made⟩ := outline_eq_ok outlined
    obtain ⟨discovered, distinct, reachable, passes⟩ := sweeps.spec
    refine ⟨root, defined.fragments, subject_calls edge, discovered, distinct, reachable,
      made.routines, ?_, by simp [Defined.fragments], passes, made.expansions⟩
    obtain ⟨rest, order⟩ := List.head?_eq_some_iff.mp sweeps.head?
    simp [Defined.number, order]
  · have inline := subject_isInline edge
    simp [Edge.isInline, called] at inline

/-- A node whose two children are one node, on layers of different names. -/
def twins : Layout Float where
  name := "twins"
  nodes := .ofSlots [
    ⟨1, some ⟨"pad", LayerGeometry.add .empty "metal" [.rectangle ⟨0, 0⟩ ⟨1, 1⟩, ⟨[]⟩], []⟩, by simp⟩,
    ⟨1, some ⟨"pair", .empty, [("left", .toNode (.ofParts 1 1)),
      ("right", ⟨.node (.ofParts 1 1), .translate 2 0, .rename "metal" "poly"⟩)]⟩, by simp⟩]
  references := .empty

theorem twins_compiled :
    ∃ program, compile twins ⟨1, 1, true⟩ (.node (.ofParts 2 1)) = .ok (program, ⟨3, 0, 3⟩) := by
  have summarized : (compile twins ⟨1, 1, true⟩ (.node (.ofParts 2 1))).map (·.2) = .ok ⟨3, 0, 3⟩ := by
    decide +kernel
  obtain ⟨⟨program, summary⟩, compiled, same⟩ := map_eq_ok_iff.mp summarized
  exact ⟨program, same ▸ compiled⟩

theorem twins_numbered : ∃ program root fragments,
    compile twins ⟨1, 1, true⟩ (.node (.ofParts 2 1)) = .ok (program, ⟨3, 0, 3⟩) ∧
      Numbered twins ⟨1, 1, true⟩ root fragments program ⟨3, 0, 3⟩ := by
  obtain ⟨program, compiled⟩ := twins_compiled
  obtain ⟨root, fragments, _, numbered⟩ := compile_numbered rfl compiled
  exact ⟨program, root, fragments, compiled, numbered⟩

end MaskLayout.Cif
