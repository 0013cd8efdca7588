import MaskLayout.Proofs.Binary64.Rigid
import MaskLayout.Proofs.Cif.Numbering
import MaskLayout.Proofs.Layout.Validation

/-!
Which calls carry their transforms. Every transform in a program has passed the tests of a rigid one,
and over binary64 numbers a transform that has passed them is carried exactly if its linear part is
finite.
-/
namespace MaskLayout.Cif

variable {K : Type}

def Line.transform? : Line K → Option (Transform K)
  | .call _ transform => some transform
  | _ => none

/-- The transforms of all calls, that of the root with them. -/
def Program.transforms (program : Program K) : List (Transform K) :=
  program.transform :: program.routines.flatten.filterMap Line.transform?

private theorem Run.filterMap_transform? (runs : List (Run K)) :
    (runs.flatMap Run.lines).filterMap Line.transform? = [] := by
  simp [List.filterMap_flatMap, Run.lines, Line.transform?]

private theorem Edge.mem_transforms {edge : Edge K} {number : Fragment → Nat} {transform : Transform K}
    (member : transform ∈ (edge.lines number).filterMap Line.transform?) :
    ∃ fragment, edge = .call fragment transform := by
  cases edge with
  | call fragment placed =>
    cases List.mem_singleton.mp member
    exact ⟨fragment, rfl⟩
  | inline runs =>
    rw [Edge.lines, Run.filterMap_transform?] at member
    cases member

private theorem Defined.mem_transforms {defined : Defined K} {transform : Transform K}
    (member : transform ∈ defined.routines.flatten.filterMap Line.transform?) :
    ∃ entry ∈ defined, ∃ fragment, .call fragment transform ∈ entry.2.edges := by
  obtain ⟨line, drawn, placed⟩ := List.mem_filterMap.mp member
  obtain ⟨lines, routine, inside⟩ := List.mem_flatten.mp drawn
  obtain ⟨entry, listed, rfl⟩ := List.mem_map.mp routine
  refine ⟨entry, listed, ?_⟩
  have within : transform ∈ (entry.2.lines defined.number).filterMap Line.transform? :=
    List.mem_filterMap.mpr ⟨line, inside, placed⟩
  rw [Body.lines, List.filterMap_append, Run.filterMap_transform?, List.nil_append,
    List.filterMap_flatMap] at within
  obtain ⟨edge, there, within⟩ := List.mem_flatMap.mp within
  obtain ⟨fragment, rfl⟩ := Edge.mem_transforms within
  exact ⟨fragment, there⟩

variable [Scalar K] {layout : Layout K} {settings : Settings K}

private theorem isRigid_of_edge {layerMap : LayerMap} {name : String} {reference : Reference K}
    {fragment : Fragment} {transform : Transform K}
    (success : edge layout settings layerMap name reference = .ok (.call fragment transform)) :
    transform.isRigid := by
  rcases edge_cases success with ⟨_, _, _, same, _, rigid, _⟩ | ⟨_, _, _, same, _⟩
  · cases same
    exact rigid
  · cases same

private theorem isRigid_of_body {fragment callee : Fragment} {made : Body K} {transform : Transform K}
    (success : body layout settings fragment = .ok made) (called : .call callee transform ∈ made.edges) :
    transform.isRigid := by
  obtain ⟨node, _, _, edges⟩ := body_eq_ok success
  obtain ⟨child, _, success⟩ := exists_mem_of_forall₂ edges called
  exact isRigid_of_edge success

/-- All that is called has passed the tests of a rigid transform. -/
theorem isRigid_of_compile {subject : Subject K} {program : Program K} {summary : Summary}
    (still : (Transform.identity : Transform K).isRigid)
    (success : compile layout settings subject = .ok (program, summary)) {transform : Transform K}
    (member : transform ∈ program.transforms) : transform.isRigid := by
  rcases compile_cases success with ⟨root, placed, defined, passes, called, outlined, rfl, _⟩ |
    ⟨runs, _, rfl, _⟩
  · rcases List.mem_cons.mp member with rfl | member
    · cases subject with
      | node key =>
        cases subject_node_eq_ok called
        exact still
      | reference reference => exact isRigid_of_edge called
    · obtain ⟨entry, listed, fragment, edge⟩ := Defined.mem_transforms member
      exact isRigid_of_body ((outline_eq_ok outlined).2 entry listed) edge
  · rcases List.mem_cons.mp member with rfl | member
    · exact still
    · rw [List.flatten_singleton, Run.filterMap_transform?] at member
      cases member

/-- A program that is compiled, be it under strict settings or not, carries the transform of a call
exactly if the linear part of the transform is finite. What the tests let through beyond that is not a
number anywhere. -/
theorem carried_iff_of_compile {layout : Layout Float} {settings : Settings Float}
    {subject : Subject Float} {program : Program Float} {summary : Summary}
    (success : compile layout settings subject = .ok (program, summary)) :
    ∀ transform ∈ program.transforms, transform.Carried ↔ transform.LinearFinite :=
  fun _ member => Transform.carried_iff_linearFinite
    (isRigid_of_compile (by decide +kernel) success member)

/-- A cell with a pad that is turned, and a pad under finite transforms whose product is not finite. -/
def overflown : Layout Float where
  name := "overflown"
  nodes := .ofSlots [
    .fresh ⟨"pad", LayerGeometry.add .empty "metal" [.rectangle ⟨0, 0⟩ ⟨1, 1⟩], []⟩,
    .fresh ⟨"cell", .empty, [
      ("turned", ⟨.node (.ofParts 1 1), .rotate 30, .identity⟩),
      ("lost", ⟨.reference (.ofParts 1 1), .linear 1e200 1e200 1e200 1e200, .identity⟩)]⟩]
  references := .ofSlots [.fresh ⟨.node (.ofParts 1 1), .linear 1e200 1e200 (-1e200) (-1e200), .identity⟩]

theorem overflown_carried : ∃ program summary,
    compile overflown ⟨1, 1000, true⟩ (.node (.ofParts 2 1)) = .ok (program, summary) ∧
      Transform.rotate (30 : Float) ∈ program.transforms ∧ (Transform.rotate (30 : Float)).Carried := by
  have computed : (compile overflown ⟨1, 1000, true⟩ (.node (.ofParts 2 1))).map
      (fun result => decide (Transform.rotate (30 : Float) ∈ result.1.transforms)) = .ok true := by
    decide +kernel
  obtain ⟨⟨program, summary⟩, success, listed⟩ := map_eq_ok_iff.mp computed
  have member := of_decide_eq_true listed
  exact ⟨program, summary, success, member,
    (carried_iff_of_compile success _ member).mpr (by decide +kernel)⟩

/-- Strict settings let through what no call can carry. -/
theorem strict_carries_fails : overflown.Acyclic ∧ ∃ program summary,
    compile overflown ⟨1, 1000, true⟩ (.node (.ofParts 2 1)) = .ok (program, summary) ∧
      ¬ ∀ transform ∈ program.transforms, transform.Carried := by
  have computed : (compile overflown ⟨1, 1000, true⟩ (.node (.ofParts 2 1))).map
      (fun result => decide (∀ transform ∈ result.1.transforms, transform.Carried)) = .ok false := by
    decide +kernel
  obtain ⟨⟨program, summary⟩, success, broken⟩ := map_eq_ok_iff.mp computed
  have grounded := Layout.grounded_of_validate (rfl : overflown.validate = .ok ())
  exact ⟨Layout.acyclic_of_grounded grounded, program, summary, success, of_decide_eq_false broken⟩

end MaskLayout.Cif
