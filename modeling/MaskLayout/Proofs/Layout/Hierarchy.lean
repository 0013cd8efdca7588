import Mathlib.Order.WellFoundedSet
import MaskLayout.Layout.Validation
import MaskLayout.Proofs.Arena.Entries

namespace MaskLayout.Layout

variable {K : Type}

/-- A node leads to the targets of its children, and a stored reference to its own. -/
inductive Leads (layout : Layout K) : Target → Target → Prop where
  | child {key : NodeKey} {node : Node K} {child : String × Reference K}
      (found : layout.nodes.get? key = some node) (member : child ∈ node.children) :
      Leads layout (.node key) child.2.target
  | stack {key : ReferenceKey} {stored : Reference K}
      (found : layout.references.get? key = some stored) :
      Leads layout (.reference key) stored.target

/-- One entry lies below another if targets lead from the other down to it. -/
abbrev Below (layout : Layout K) : Target → Target → Prop :=
  fun lower upper => Relation.TransGen layout.Leads upper lower

/-- Targets lead from one entry to another one, or to itself without a step. -/
abbrev Reaches (layout : Layout K) : Target → Target → Prop := Relation.ReflTransGen layout.Leads

/-- Every target of an entry is there. -/
def Closed (layout : Layout K) : Prop :=
  ∀ entry target, layout.Leads entry target → layout.contains target

/-- No entry lies below itself. -/
def Acyclic (layout : Layout K) : Prop := ∀ entry, ¬ layout.Below entry entry

theorem contains_node_iff {layout : Layout K} {key : NodeKey} :
    layout.contains (.node key) ↔ ∃ node, layout.nodes.get? key = some node :=
  Arena.contains_iff

theorem contains_reference_iff {layout : Layout K} {key : ReferenceKey} :
    layout.contains (.reference key) ↔ ∃ reference, layout.references.get? key = some reference :=
  Arena.contains_iff

theorem Leads.contains {layout : Layout K} {entry target : Target}
    (step : layout.Leads entry target) : layout.contains entry := by
  cases step with
  | child found member => exact contains_node_iff.mpr ⟨_, found⟩
  | stack found => exact contains_reference_iff.mpr ⟨_, found⟩

theorem Below.contains {layout : Layout K} {lower upper : Target}
    (below : layout.Below lower upper) : layout.contains upper := by
  obtain ⟨next, first, _⟩ := Relation.TransGen.head'_iff.mp below
  exact first.contains

theorem mem_vertices_iff {layout : Layout K} {entry : Target} :
    entry ∈ layout.vertices ↔ layout.contains entry := by
  cases entry with
  | node key => simp [vertices, Arena.mem_keys_iff, Layout.contains]
  | reference key => simp [vertices, Arena.mem_keys_iff, Layout.contains]

theorem node_eq_ok_iff {layout : Layout K} {key : NodeKey} {node : Node K} :
    layout.node key = .ok node ↔ layout.nodes.get? key = some node := by
  unfold Layout.node
  cases layout.nodes.get? key with
  | none => simp
  | some stored => simp

theorem reference_eq_ok_iff {layout : Layout K} {key : ReferenceKey} {reference : Reference K} :
    layout.reference key = .ok reference ↔ layout.references.get? key = some reference := by
  unfold Layout.reference
  cases layout.references.get? key with
  | none => simp
  | some stored => simp

/-- An entry that is there has its targets listed, each as often as it refers to it. -/
theorem targets_of_contains {layout : Layout K} {entry : Target} (present : layout.contains entry) :
    ∃ targets, layout.targets entry = .ok targets ∧
      ∀ target, target ∈ targets ↔ layout.Leads entry target := by
  cases entry with
  | node key =>
    obtain ⟨node, found⟩ := contains_node_iff.mp present
    refine ⟨node.children.map (·.2.target), by
      simp [targets, node_eq_ok_iff.mpr found, bind, Except.bind, pure, Except.pure], fun target => ?_⟩
    constructor
    · intro member
      obtain ⟨child, listed, rfl⟩ := List.mem_map.mp member
      exact .child found listed
    · intro step
      cases step with
      | child other listed =>
        cases Option.some.inj (other.symm.trans found)
        exact List.mem_map.mpr ⟨_, listed, rfl⟩
  | reference key =>
    obtain ⟨reference, found⟩ := contains_reference_iff.mp present
    refine ⟨[reference.target], by
      simp [targets, reference_eq_ok_iff.mpr found, bind, Except.bind, pure, Except.pure],
      fun target => ?_⟩
    rw [List.mem_singleton]
    constructor
    · intro same
      rw [same]
      exact .stack found
    · intro step
      cases step with
      | stack other => rw [Option.some.inj (other.symm.trans found)]

/-- Without circles every way down comes to an end, since only finitely many entries are there. -/
theorem Acyclic.wellFounded {layout : Layout K} (acyclic : layout.Acyclic) :
    WellFounded layout.Below := by
  have order : IsStrictOrder Target layout.Below :=
    { irrefl := acyclic
      trans := fun _ _ _ first second => second.trans first }
  have finite : {entry | layout.contains entry = true}.Finite :=
    (List.finite_toSet layout.vertices).subset fun entry present => mem_vertices_iff.mpr present
  have within := Set.wellFoundedOn_iff.mp (finite.wellFoundedOn (r := layout.Below))
  constructor
  intro entry
  induction entry using within.induction with
  | h entry ih =>
    constructor
    intro lower below
    by_cases present : layout.contains lower = true
    · exact ih lower ⟨below, present, below.contains⟩
    · exact ⟨lower, fun deeper under => absurd under.contains present⟩

end MaskLayout.Layout
