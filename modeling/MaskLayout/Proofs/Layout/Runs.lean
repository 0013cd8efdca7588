import MaskLayout.Proofs.Arena.Generations
import MaskLayout.Proofs.Layout.Validation
import MaskLayout.Saved.Layout

/-!
Layouts that are edited. Targets must be there when something that refers to them is put in, so that
nothing refers to an entry that is yet to come. The key of a new node would have to be one that was
in use before, and those have been outlived.
-/
namespace MaskLayout.Layout

variable {K : Type}

/-- An edit may speak of any keys, whether they were handed out by this layout or not. -/
inductive Edit (K : Type) where
  | addNode (draft : NodeDraft K)
  | addReference (reference : Reference K)
  | removeNode (key : NodeKey)

def Edit.isRemoval : Edit K → Bool
  | .removeNode _ => true
  | .addNode _ => false
  | .addReference _ => false

/-- The layout after an edit. One that fails changes nothing. -/
def edit (layout : Layout K) : Edit K → Layout K
  | .addNode draft =>
    match layout.addNode draft with
    | .ok (after, _) => after
    | .error _ => layout
  | .addReference reference =>
    match layout.addReference reference with
    | .ok (after, _) => after
    | .error _ => layout
  | .removeNode key =>
    match layout.removeNode? key with
    | some (after, _) => after
    | none => layout

def run (layout : Layout K) (edits : List (Edit K)) : Layout K := edits.foldl edit layout

theorem addNode_eq_ok {layout after : Layout K} {draft : NodeDraft K} {key : NodeKey}
    (success : layout.addNode draft = .ok (after, key)) :
    (∀ child ∈ draft.children, layout.contains child.2.target) ∧
      after = { layout with nodes := (layout.nodes.insert draft.node).1 } ∧
      key = (layout.nodes.insert draft.node).2 := by
  unfold addNode at success
  split at success
  · cases success
  · rename_i complete
    obtain ⟨rfl, rfl⟩ := Prod.mk.inj (Except.ok.inj success)
    refine ⟨fun child member => ?_, rfl, rfl⟩
    simpa using List.find?_eq_none.mp complete child member

theorem addReference_eq_ok {layout after : Layout K} {reference : Reference K} {key : ReferenceKey}
    (success : layout.addReference reference = .ok (after, key)) :
    layout.contains reference.target ∧
      after = { layout with references := (layout.references.insert reference).1 } ∧
      key = (layout.references.insert reference).2 := by
  obtain ⟨_, required, stored⟩ := bind_eq_ok_iff.mp success
  obtain ⟨rfl, rfl⟩ := Prod.mk.inj (Except.ok.inj stored)
  have outcome := layout.require_outcome reference.target
  rw [required] at outcome
  exact ⟨outcome, rfl, rfl⟩

theorem removeNode?_eq_some {layout after : Layout K} {key : NodeKey} {node : Node K}
    (success : layout.removeNode? key = some (after, node)) :
    ∃ rest, layout.nodes.remove? key = some (rest, node) ∧ after = { layout with nodes := rest } := by
  obtain ⟨⟨rest, removed⟩, taken, same⟩ := Option.map_eq_some_iff.mp success
  obtain ⟨rfl, rfl⟩ := Prod.mk.inj same
  exact ⟨rest, taken, rfl⟩

/-- One layout is another with one entry more, whose targets were there already. -/
structure Extends (after before : Layout K) (added : Target) : Prop where
  absent : ¬ before.contains added
  present : after.contains added
  kept : ∀ target, before.contains target → after.contains target
  leads : ∀ entry target, after.Leads entry target →
    before.Leads entry target ∨ entry = added ∧ before.contains target

theorem extends_addNode {layout after : Layout K} {draft : NodeDraft K} {key : NodeKey}
    (success : layout.addNode draft = .ok (after, key)) : after.Extends layout (.node key) := by
  obtain ⟨complete, rfl, rfl⟩ := addNode_eq_ok success
  have stored := layout.nodes.get?_insert draft.node
  have absent := layout.nodes.get?_new draft.node
  refine ⟨?_, ?_, ?_, ?_⟩
  · intro present
    obtain ⟨node, found⟩ := contains_node_iff.mp present
    rw [absent] at found
    cases found
  · exact contains_node_iff.mpr ⟨draft.node, by simp [stored]⟩
  · intro target present
    cases target with
    | reference other => exact present
    | node other =>
      obtain ⟨node, found⟩ := contains_node_iff.mp present
      exact contains_node_iff.mpr ⟨node, Arena.get?_insert_of_get? found draft.node⟩
  · intro entry target step
    cases step with
    | stack found => exact .inl (.stack found)
    | @child other node child found member =>
      rw [stored] at found
      split at found
      · rename_i same
        cases found
        exact .inr ⟨by rw [same], complete child member⟩
      · exact .inl (.child found member)

theorem extends_addReference {layout after : Layout K} {reference : Reference K} {key : ReferenceKey}
    (success : layout.addReference reference = .ok (after, key)) :
    after.Extends layout (.reference key) := by
  obtain ⟨complete, rfl, rfl⟩ := addReference_eq_ok success
  have stored := layout.references.get?_insert reference
  have absent := layout.references.get?_new reference
  refine ⟨?_, ?_, ?_, ?_⟩
  · intro present
    obtain ⟨node, found⟩ := contains_reference_iff.mp present
    rw [absent] at found
    cases found
  · exact contains_reference_iff.mpr ⟨reference, by simp [stored]⟩
  · intro target present
    cases target with
    | node other => exact present
    | reference other =>
      obtain ⟨held, found⟩ := contains_reference_iff.mp present
      exact contains_reference_iff.mpr ⟨held, Arena.get?_insert_of_get? found reference⟩
  · intro entry target step
    cases step with
    | child found member => exact .inl (.child found member)
    | @stack other held found =>
      rw [stored] at found
      split at found
      · rename_i same
        cases found
        exact .inr ⟨by rw [same], complete⟩
      · exact .inl (.stack found)

/-- A new entry to which nothing refers yet lies on no circle, and makes none. -/
theorem Extends.acyclic {after before : Layout K} {added : Target}
    (extension : after.Extends before added) (unreferenced : ∀ entry, ¬ before.Leads entry added)
    (acyclic : before.Acyclic) : after.Acyclic := by
  have avoids {entry target : Target} (step : after.Leads entry target) : target ≠ added := by
    intro same
    subst same
    rcases extension.leads entry target step with earlier | ⟨_, present⟩
    · exact unreferenced entry earlier
    · exact extension.absent present
  have before_of_ne {upper lower : Target} (below : after.Below lower upper) (old : upper ≠ added) :
      before.Below lower upper := by
    induction below with
    | single step =>
      rcases extension.leads _ _ step with earlier | ⟨same, _⟩
      · exact .single earlier
      · exact absurd same old
    | tail way step ih =>
      obtain ⟨_, _, last⟩ := Relation.TransGen.tail'_iff.mp way
      rcases extension.leads _ _ step with earlier | ⟨same, _⟩
      · exact ih.tail earlier
      · exact absurd same (avoids last)
  intro entry round
  obtain ⟨_, _, last⟩ := Relation.TransGen.tail'_iff.mp round
  exact acyclic entry (before_of_ne round (avoids last))

/-- The target was there, but has been removed since. -/
def Outlived (layout : Layout K) (removals : Nat) : Target → Prop
  | .node key => layout.nodes.Outlived key removals
  | .reference _ => False

theorem Outlived.mono {layout : Layout K} {removals more : Nat} {target : Target}
    (past : layout.Outlived removals target) (fewer : removals ≤ more) :
    layout.Outlived more target := by
  cases target with
  | node key => exact Arena.Outlived.mono past fewer
  | reference key => exact past

theorem Outlived.not_contains {layout : Layout K} {removals : Nat} {target : Target}
    (past : layout.Outlived removals target) (few : removals < Arena.lifespan) :
    ¬ layout.contains target := by
  cases target with
  | node key =>
    intro present
    obtain ⟨node, found⟩ := contains_node_iff.mp present
    rw [Arena.Outlived.get?_eq_none past few] at found
    cases found
  | reference key => exact past.elim

theorem outlived_addNode {layout after : Layout K} {draft : NodeDraft K} {key : NodeKey}
    (success : layout.addNode draft = .ok (after, key)) {removals : Nat} {target : Target}
    (past : layout.Outlived removals target) : after.Outlived removals target := by
  obtain ⟨_, rfl, _⟩ := addNode_eq_ok success
  cases target with
  | node other => exact Arena.Outlived.insert past draft.node
  | reference other => exact past

theorem outlived_addReference {layout after : Layout K} {reference : Reference K}
    {key : ReferenceKey} (success : layout.addReference reference = .ok (after, key))
    {removals : Nat} {target : Target} (past : layout.Outlived removals target) :
    after.Outlived removals target := by
  obtain ⟨_, rfl, _⟩ := addReference_eq_ok success
  cases target with
  | node other => exact past
  | reference other => exact past

/-- What holds of a layout after so many removals. -/
structure Sound (layout : Layout K) (removals : Nat) : Prop where
  acyclic : layout.Acyclic
  accounted : ∀ entry target, layout.Leads entry target →
    layout.contains target ∨ layout.Outlived removals target

theorem Sound.mono {layout : Layout K} {removals more : Nat} (sound : layout.Sound removals)
    (fewer : removals ≤ more) : layout.Sound more where
  acyclic := sound.acyclic
  accounted entry target step :=
    (sound.accounted entry target step).imp_right fun past => past.mono fewer

theorem Sound.extends {after before : Layout K} {added : Target} {removals : Nat}
    (sound : before.Sound removals) (few : removals < Arena.lifespan)
    (extension : after.Extends before added)
    (outlived : ∀ target, before.Outlived removals target → after.Outlived removals target) :
    after.Sound removals := by
  refine ⟨extension.acyclic (fun entry step => ?_) sound.acyclic, fun entry target step => ?_⟩
  · rcases sound.accounted entry added step with present | past
    · exact extension.absent present
    · exact (outlived added past).not_contains few extension.present
  · rcases extension.leads entry target step with earlier | ⟨_, present⟩
    · exact (sound.accounted entry target earlier).imp (extension.kept target) (outlived target)
    · exact .inl (extension.kept target present)

/-- Removing adds no references. -/
theorem leads_of_removeNode? {layout after : Layout K} {key : NodeKey} {node : Node K}
    (success : layout.removeNode? key = some (after, node)) {entry target : Target}
    (step : after.Leads entry target) : layout.Leads entry target := by
  obtain ⟨rest, taken, rfl⟩ := removeNode?_eq_some success
  cases step with
  | stack found => exact .stack found
  | child found member =>
    rw [(Arena.get?_remove taken _).2] at found
    split at found
    · cases found
    · exact .child found member

/-- What is there or was there is so still when a node is removed. -/
theorem accounted_of_removeNode? {layout after : Layout K} {removals : Nat} {key : NodeKey}
    {node : Node K} (success : layout.removeNode? key = some (after, node)) {target : Target}
    (accounted : layout.contains target ∨ layout.Outlived removals target) :
    after.contains target ∨ after.Outlived (removals + 1) target := by
  obtain ⟨rest, taken, rfl⟩ := removeNode?_eq_some success
  have looked := fun other => (Arena.get?_remove taken other).2
  cases target with
  | reference other => exact accounted
  | node other =>
    rcases accounted with present | past
    · by_cases same : other = key
      · right
        exact (same ▸ Arena.outlived_of_remove taken).mono (by omega)
      · left
        obtain ⟨held, found⟩ := contains_node_iff.mp present
        exact contains_node_iff.mpr ⟨held, by simpa [looked, same] using found⟩
    · exact .inr (Arena.Outlived.remove past taken)

theorem Sound.remove {layout after : Layout K} {removals : Nat} {key : NodeKey} {node : Node K}
    (sound : layout.Sound removals) (success : layout.removeNode? key = some (after, node)) :
    after.Sound (removals + 1) where
  acyclic entry round := sound.acyclic entry
    (Relation.TransGen.mono (fun _ _ => leads_of_removeNode? success) entry entry round)
  accounted entry target step :=
    accounted_of_removeNode? success (sound.accounted entry target (leads_of_removeNode? success step))

/-- What one edit preserves. -/
theorem Sound.edit {layout : Layout K} {removals : Nat} (sound : layout.Sound removals)
    (few : removals < Arena.lifespan) (change : Edit K) :
    (layout.edit change).Sound (removals + if change.isRemoval then 1 else 0) := by
  cases change with
  | addNode draft =>
    cases added : layout.addNode draft with
    | error error => simpa [Layout.edit, added, Edit.isRemoval] using sound
    | ok result =>
      have kept := sound.extends few (extends_addNode added) fun _ past => outlived_addNode added past
      simpa [Layout.edit, added, Edit.isRemoval] using kept
  | addReference reference =>
    cases added : layout.addReference reference with
    | error error => simpa [Layout.edit, added, Edit.isRemoval] using sound
    | ok result =>
      have kept := sound.extends few (extends_addReference added)
        fun _ past => outlived_addReference added past
      simpa [Layout.edit, added, Edit.isRemoval] using kept
  | removeNode key =>
    cases removed : layout.removeNode? key with
    | none => simpa [Layout.edit, removed] using sound.mono (Nat.le_add_right _ _)
    | some result => simpa [Layout.edit, removed, Edit.isRemoval] using sound.remove removed

theorem Sound.run {layout : Layout K} {removals : Nat} (sound : layout.Sound removals)
    (edits : List (Edit K)) (few : removals + edits.countP Edit.isRemoval < Arena.lifespan) :
    (layout.run edits).Sound (removals + edits.countP Edit.isRemoval) := by
  induction edits generalizing layout removals with
  | nil => exact sound
  | cons change rest ih =>
    rw [List.countP_cons] at few ⊢
    have next := ih (sound.edit (by omega) change) (by omega)
    exact next.mono (by omega)

/-- Where a layout comes from before it is edited. -/
inductive Origin : Layout Float → Prop where
  | empty (name : String) : Origin (.empty name)
  | loaded {text : String} {layout : Layout Float} (success : load text = .ok layout) : Origin layout

private theorem validate_of_load {text : String} {layout : Layout Float}
    (success : load text = .ok layout) :
    layout.validate = .ok () := by
  unfold load at success
  split at success
  · cases success
  · split at success
    · cases success
    · rename_i passed
      rw [← Except.ok.inj success]
      exact passed

theorem Origin.sound {layout : Layout Float} (origin : layout.Origin) : layout.Sound 0 := by
  cases origin with
  | empty name =>
    have nowhere (entry target : Target) : ¬ Leads (.empty name : Layout Float) entry target := by
      intro step
      cases step with
      | child found member => simp [Layout.empty] at found
      | stack found => simp [Layout.empty] at found
    refine ⟨fun entry round => ?_, fun entry target step => absurd step (nowhere entry target)⟩
    obtain ⟨next, first, _⟩ := Relation.TransGen.head'_iff.mp round
    exact nowhere entry next first
  | loaded success =>
    have grounded := grounded_of_validate (validate_of_load success)
    exact ⟨acyclic_of_grounded grounded, fun entry target step =>
      .inl (closed_of_grounded grounded entry target step)⟩

/-- However a layout is edited, no entry ever lies below itself, as long as the generations of a
place cannot have come round again. -/
theorem acyclic_run {start : Layout Float} (origin : start.Origin) (edits : List (Edit Float))
    (few : edits.countP Edit.isRemoval < Arena.lifespan) :
    ∀ earlier, earlier <+: edits → (start.run earlier).Acyclic := by
  intro earlier before
  have fewer : earlier.countP Edit.isRemoval ≤ edits.countP Edit.isRemoval :=
    before.sublist.countP_le
  exact (origin.sound.run earlier (by omega)).acyclic

/-- A leaf is removed, and what takes its place is a node above its former parent, in which the key
of the leaf is still kept. -/
def recycled : List (Edit Float) :=
  [.addNode (.empty "leaf"),
    .addNode ⟨"middle", .empty, [("part", .toNode (.ofParts 1 1))], by simp, by simp⟩,
    .removeNode (.ofParts 1 1),
    .addNode ⟨"top", .empty, [("part", .toNode (.ofParts 2 1))], by simp, by simp⟩]

theorem recycled_acyclic : ((empty "").run recycled : Layout Float).nodes.keys =
      [.ofParts 1 3, .ofParts 2 1] ∧
    ∀ earlier, earlier <+: recycled → ((empty "").run earlier).Acyclic := by
  have few : recycled.countP Edit.isRemoval < Arena.lifespan := by decide
  exact ⟨by decide, acyclic_run (.empty "") recycled few⟩

end MaskLayout.Layout
