import MaskLayout.Proofs.Cif.Numbering
import MaskLayout.Proofs.Cif.Success

/-!
Strict settings only refuse. They let the same things through that would be compiled to calls anyway,
and what is searched for does not depend on them.
-/
namespace MaskLayout.Cif

open BreadthFirst

/-- The same settings, under which what no call can carry is refused. -/
def Settings.refusing {K : Type} (settings : Settings K) : Settings K := { settings with strict := true }

/-- The same settings, under which what no call can carry is expanded in place. -/
def Settings.expanding {K : Type} (settings : Settings K) : Settings K := { settings with strict := false }

variable {K : Type} [Scalar K] {layout : Layout K} {settings : Settings K}

private theorem edge_refusing_iff {layerMap : LayerMap} {name : String} {reference : Reference K}
    {made : Edge K} : edge layout settings.refusing layerMap name reference = .ok made ↔
      edge layout settings.expanding layerMap name reference = .ok made ∧ made.isInline = false := by
  cases made with
  | call fragment transform =>
    rw [edge_eq_call_iff, edge_eq_call_iff]
    exact (and_iff_left rfl).symm
  | inline runs =>
    constructor
    · intro success
      rcases edge_cases success with ⟨_, _, _, same, _⟩ | ⟨_, _, _, _, _, _, lenient, _⟩
      · cases same
      · cases lenient
    · intro plain
      cases plain.2

private theorem body_refusing_iff {fragment : Fragment} {made : Body K} :
    body layout settings.refusing fragment = .ok made ↔
      body layout settings.expanding fragment = .ok made ∧
        ∀ edge ∈ made.edges, edge.isInline = false := by
  rw [body_eq_ok_iff, body_eq_ok_iff]
  simp only [edge_refusing_iff, forall₂_and_right_iff]
  constructor
  · intro parts
    obtain ⟨node, found, drawn, edges, plain⟩ := parts
    exact ⟨⟨node, found, drawn, edges⟩, plain⟩
  · intro parts
    obtain ⟨⟨node, found, drawn, edges⟩, plain⟩ := parts
    exact ⟨node, found, drawn, edges, plain⟩

private theorem made_refusing_iff {defined : Defined K} :
    defined.Made layout settings.refusing ↔ defined.Made layout settings.expanding ∧
      (defined.flatMap (·.2.edges)).countP Edge.isInline = 0 := by
  have plain : (defined.flatMap (·.2.edges)).countP Edge.isInline = 0 ↔
      ∀ entry ∈ defined, ∀ edge ∈ entry.2.edges, edge.isInline = false := by
    simp only [List.countP_eq_zero, List.forall_mem_flatMap, Bool.not_eq_true]
  rw [plain]
  simp only [Defined.Made, body_refusing_iff, forall_and]

private theorem outline_refusing_iff {root : Fragment} {defined : Defined K} {count : Nat} :
    outline layout settings.refusing root = .ok (defined, count) ↔
      outline layout settings.expanding root = .ok (defined, count) ∧
        (defined.flatMap (·.2.edges)).countP Edge.isInline = 0 := by
  rw [outline_eq_ok_iff, outline_eq_ok_iff, made_refusing_iff]
  tauto

private theorem subject_edge_refusing_iff {subject : Subject K} {made : Edge K} :
    subject.edge layout settings.refusing = .ok made ↔
      subject.edge layout settings.expanding = .ok made ∧ made.isInline = false := by
  cases subject with
  | node key =>
    refine ⟨fun success => ⟨success, ?_⟩, fun success => success.1⟩
    obtain ⟨node, _, same⟩ := bind_eq_ok_iff.mp success
    cases Except.ok.inj same
    rfl
  | reference reference => exact edge_refusing_iff

private theorem compile_refusing_iff {subject : Subject K} {program : Program K} {summary : Summary} :
    compile layout settings.refusing subject = .ok (program, summary) ↔
      compile layout settings.expanding subject = .ok (program, summary) ∧
        summary.inlineExpansions = 0 := by
  constructor
  · intro success
    rcases compile_cases success with ⟨root, transform, defined, count, called, outlined, rfl, rfl⟩ |
      ⟨runs, expanded, _⟩
    · obtain ⟨outlined, none⟩ := outline_refusing_iff.mp outlined
      exact ⟨compile_of_outline (subject_edge_refusing_iff.mp called).1 outlined, none⟩
    · cases (subject_edge_refusing_iff.mp expanded).2
  · intro success
    obtain ⟨success, none⟩ := success
    rcases compile_cases success with ⟨root, transform, defined, count, called, outlined, rfl, rfl⟩ |
      ⟨runs, _, _, rfl⟩
    · exact compile_of_outline (subject_edge_refusing_iff.mpr ⟨called, rfl⟩)
        (outline_refusing_iff.mpr ⟨outlined, none⟩)
    · cases none

/-- Strict settings compile exactly what is compiled without an expansion otherwise, to the same
program with the same summary and the same text. So where an edge is refused, something is expanded in
place otherwise, if it does not fail as well. -/
theorem strict_only_refuses (layout : Layout K) (settings : Settings K) (subject : Subject K) :
    (∀ program summary, compile layout settings.refusing subject = .ok (program, summary) ↔
      compile layout settings.expanding subject = .ok (program, summary) ∧
        summary.inlineExpansions = 0) ∧
    (∀ program : Program K, program.text settings.refusing = program.text settings.expanding) ∧
    (∀ result, compile layout settings.refusing subject = .ok result → ∀ space,
      write layout settings.refusing space subject = write layout settings.expanding space subject) ∧
    ∀ edge scaleX scaleY shear, compile layout settings.refusing subject =
        .error (.unrepresentable edge scaleX scaleY shear) →
      (∃ error, compile layout settings.expanding subject = .error error) ∨
        ∃ program summary, compile layout settings.expanding subject = .ok (program, summary) ∧
          1 ≤ summary.inlineExpansions := by
  refine ⟨fun program summary => compile_refusing_iff, fun program => rfl,
    fun result success space => ?_, ?_⟩
  · rw [write_eq, write_eq, success, (compile_refusing_iff.mp success).1]
    rfl
  · intro edge scaleX scaleY shear refused
    cases compiled : compile layout settings.expanding subject with
    | error error => exact .inl ⟨error, rfl⟩
    | ok result =>
      refine .inr ⟨result.1, result.2, rfl, Nat.one_le_iff_ne_zero.mpr fun none => ?_⟩
      have same := compile_refusing_iff.mpr ⟨compiled, none⟩
      rw [refused] at same
      cases same

/-- A pad that is placed once as it is and once twice as large. -/
def enlarged : Layout Float where
  name := "enlarged"
  nodes := .ofSlots [
    .fresh ⟨"pad", LayerGeometry.add .empty "metal" [.rectangle ⟨0, 0⟩ ⟨1, 1⟩], []⟩,
    .fresh ⟨"pair", .empty, [("plain", .toNode (.ofParts 1 1)),
      ("large", ⟨.node (.ofParts 1 1), .scale 2 2, .identity⟩)]⟩]
  references := .empty

theorem enlarged_refused :
    compile enlarged (Settings.refusing ⟨1, 1, false⟩) (.node (.ofParts 2 1)) =
        .error (.unrepresentable "large" 2 2 0) ∧
      ((∃ error, compile enlarged (Settings.expanding ⟨1, 1, false⟩) (.node (.ofParts 2 1)) =
          .error error) ∨
        ∃ program summary, compile enlarged (Settings.expanding ⟨1, 1, false⟩) (.node (.ofParts 2 1)) =
          .ok (program, summary) ∧ 1 ≤ summary.inlineExpansions) := by
  have summarized : (compile enlarged (Settings.refusing ⟨1, 1, false⟩) (.node (.ofParts 2 1))).map
      (·.2) = .error (.unrepresentable "large" 2 2 0) := by decide +kernel
  have refused := map_eq_error_iff.mp summarized
  have only := strict_only_refuses enlarged ⟨1, 1, false⟩ (.node (.ofParts 2 1))
  exact ⟨refused, only.2.2.2 _ _ _ _ refused⟩

end MaskLayout.Cif
