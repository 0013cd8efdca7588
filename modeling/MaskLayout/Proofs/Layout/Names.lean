import MaskLayout.Proofs.Layout.Runs

/-!
The names of children. A draft takes neither an empty name nor one that it has, so in what is put
together here a name stands for one child. What is loaded may bring any names along; they stay as long
as their nodes do.
-/
namespace MaskLayout

variable {K : Type}

/-- Every child has a name, and none has that of another one. -/
structure Node.IsNamed (node : Node K) : Prop where
  named : ∀ child ∈ node.children, child.1 ≠ ""
  distinct : (node.children.map (·.1)).Nodup

instance (node : Node K) : Decidable node.IsNamed :=
  decidable_of_iff ((∀ child ∈ node.children, child.1 ≠ "") ∧ (node.children.map (·.1)).Nodup)
    ⟨fun ⟨named, distinct⟩ => ⟨named, distinct⟩, fun isNamed => ⟨isNamed.named, isNamed.distinct⟩⟩

private theorem NodeDraft.isNamed_node (draft : NodeDraft K) :
    draft.node.IsNamed := ⟨draft.named, draft.distinct⟩

/-- Under its name each child is found, and no other one. -/
theorem Node.IsNamed.child?_eq {node : Node K} (isNamed : node.IsNamed) {child : String × Reference K}
    (member : child ∈ node.children) : node.child? child.1 = some child.2 := by
  have distinct := isNamed.distinct
  unfold Node.child?
  generalize node.children = children at member distinct
  induction children with
  | nil => cases member
  | cons first rest ih =>
    obtain ⟨fresh, others⟩ := List.nodup_cons.mp (List.map_cons ▸ distinct)
    rcases List.mem_cons.mp member with rfl | later
    · simp
    · have different : first.1 ≠ child.1 := fun same => fresh (same ▸ List.mem_map_of_mem later)
      rw [List.find?_cons_of_neg (by simpa using different)]
      exact ih later others

namespace Layout

/-- In every node that is there, each child has a name of its own. -/
def IsNamed (layout : Layout K) : Prop := ∀ key node, layout.nodes.get? key = some node → node.IsNamed

/-- A node that is there after an edit was there before, or is made from a draft. -/
theorem get?_edit {layout : Layout K} {change : Edit K} {key : NodeKey} {node : Node K}
    (found : (layout.edit change).nodes.get? key = some node) :
    layout.nodes.get? key = some node ∨ ∃ draft : NodeDraft K, node = draft.node := by
  cases change with
  | addNode draft =>
    cases added : layout.addNode draft with
    | error error => exact .inl (by simpa [edit, added] using found)
    | ok result =>
      obtain ⟨_, same, _⟩ := addNode_eq_ok added
      simp only [edit, added, same, Arena.get?_insert] at found
      split at found
      · exact .inr ⟨draft, (Option.some.inj found).symm⟩
      · exact .inl found
  | addReference reference =>
    cases added : layout.addReference reference with
    | error error => exact .inl (by simpa [edit, added] using found)
    | ok result =>
      obtain ⟨_, same, _⟩ := addReference_eq_ok added
      exact .inl (by simpa [edit, added, same] using found)
  | removeNode removed =>
    cases taken : layout.removeNode? removed with
    | none => exact .inl (by simpa [edit, taken] using found)
    | some result =>
      obtain ⟨rest, remaining, same⟩ := removeNode?_eq_some taken
      simp only [edit, taken, same, (Arena.get?_remove remaining key).2] at found
      split at found
      · cases found
      · exact .inl found

private theorem get?_run {start : Layout K} {edits : List (Edit K)} {key : NodeKey} {node : Node K}
    (found : (start.run edits).nodes.get? key = some node) :
    start.nodes.get? key = some node ∨ ∃ draft : NodeDraft K, node = draft.node := by
  induction edits generalizing start with
  | nil => exact .inl found
  | cons change rest ih =>
    rcases ih found with before | made
    · exact get?_edit before
    · exact .inr made

/-- Wherever a layout comes from and however it is edited, its names are in order exactly if they are
in those nodes that it came with and still has; and then each child that is listed is the one that is
found under its name. -/
theorem children_identified (start : Layout K) (edits : List (Edit K)) :
    ((start.run edits).IsNamed ↔ ∀ key node, start.nodes.get? key = some node →
      (start.run edits).nodes.get? key = some node → node.IsNamed) ∧
    ((start.run edits).IsNamed → ∀ key node, (start.run edits).nodes.get? key = some node →
      ∀ child ∈ node.children, node.child? child.1 = some child.2) := by
  refine ⟨⟨fun isNamed key node _ there => isNamed key node there, fun old key node found => ?_⟩,
    fun isNamed key node found child member => (isNamed key node found).child?_eq member⟩
  rcases get?_run found with before | ⟨draft, rfl⟩
  · exact old key node before found
  · exact draft.isNamed_node

/-- A layout that starts out empty never has a name twice. -/
theorem isNamed_run_empty (name : String) (edits : List (Edit K)) :
    ((empty name).run edits : Layout K).IsNamed := by
  intro key node found
  rcases get?_run found with before | ⟨draft, rfl⟩
  · simp [empty] at before
  · exact draft.isNamed_node

/-- A saved layout with two children of one name, which are placed differently. -/
def ambiguous : String :=
  "[\"lib\",[[null,0],[[\"pad\",\x7b\x7d,[]],1],[[\"pair\",\x7b\x7d,[" ++
  "[\"x\",[\x7b\"Node\":[1,1]\x7d,[[[1,0],[0,1]],[0,0]],\"Identity\"]]," ++
  "[\"x\",[\x7b\"Node\":[1,1]\x7d,[[[1,0],[0,1]],[5,0]],\"Identity\"]]]],1]],[[null,0]]]"

/-- It is loaded, and only the first of the two is found under their name. -/
theorem ambiguous_loads : ∃ layout node first second, load ambiguous = .ok layout ∧
    layout.nodes.get? (.ofParts 2 1) = some node ∧
    node.children = [("x", first), ("x", second)] ∧ ¬ node.IsNamed ∧
    node.child? "x" = some first ∧ first ≠ second := by
  let pad (dx : Float) : Reference Float := ⟨.node (.ofParts 1 1), .translate dx 0, .identity⟩
  have loaded : (load ambiguous).toOption.bind (fun layout =>
      (layout.nodes.get? (.ofParts 2 1)).map (·.children)) = some [("x", pad 0), ("x", pad 5)] := by
    decide +kernel
  obtain ⟨layout, success, there⟩ := Option.bind_eq_some_iff.mp loaded
  obtain ⟨node, found, children⟩ := Option.map_eq_some_iff.mp there
  refine ⟨layout, node, pad 0, pad 5, mem_toOption_iff.mp success, found, children, fun isNamed => ?_,
    by simp [Node.child?, children], by decide +kernel⟩
  have distinct := isNamed.distinct
  rw [children] at distinct
  exact absurd distinct (by simp)

end Layout

end MaskLayout
