import MaskLayout.Proofs.Saved.Layout

/-!
What becomes of an edited layout that is saved and loaded. It comes back with everything it had,
unless something in it still refers to a node that was removed.
-/
namespace MaskLayout.Layout

open Json

/-- A saved layout is decoded, and then accepted or refused for its targets. -/
theorem load_save_eq {layout : Layout Float} (finite : layout.IsFinite)
    (reachable : ∀ entry target, layout.Leads entry target → target.IsReachable) :
    load layout.save = match layout.reloaded.validate with
      | .error error => .error (.layout error)
      | .ok () => .ok layout.reloaded := by
  have decoded : decode Layout.ofReading? layout.save = .ok layout.reloaded :=
    (restores finite reachable).decode_pretty
  cases checked : layout.reloaded.validate <;> simp [load, decoded, checked]

/-- Without circles there is nothing to complain of but targets that are not there. -/
theorem load_save_of_acyclic {layout : Layout Float} (finite : layout.IsFinite)
    (reachable : ∀ entry target, layout.Leads entry target → target.IsReachable)
    (acyclic : layout.Acyclic) :
    load layout.save = .ok layout.reloaded ∧ layout.Closed ∨
      ∃ entry target, layout.Leads entry target ∧ ¬ layout.contains target ∧
        load layout.save = .error (.layout (.staleKey target.kind)) := by
  rw [load_save_eq finite reachable]
  cases checked : layout.reloaded.validate with
  | ok value =>
    exact .inl ⟨rfl, closed_reloaded.mp (closed_of_grounded (grounded_of_validate checked))⟩
  | error error =>
    cases fault_of_validate checked with
    | dangling step absent =>
      exact .inr ⟨_, _, leads_reloaded.mp step, by rwa [← contains_reloaded], rfl⟩
    | circle round => exact absurd round (acyclic_reloaded acyclic _)

/-- A node that was there at some time of a run, and is not any more. -/
def Removed (start : Layout Float) (edits : List (Edit Float)) (key : NodeKey) : Prop :=
  (∃ earlier, earlier <+: edits ∧ (start.run earlier).contains (.node key)) ∧
    ¬ (start.run edits).contains (.node key)

private theorem leads_edit {layout : Layout Float} {change : Edit Float} {entry target : Target}
    (step : (layout.edit change).Leads entry target) :
    layout.Leads entry target ∨ layout.contains target := by
  cases change with
  | addNode draft =>
    cases added : layout.addNode draft with
    | error error => exact .inl (by simpa [edit, added] using step)
    | ok result =>
      have extended := (extends_addNode added).leads entry target (by simpa [edit, added] using step)
      exact extended.imp_right And.right
  | addReference reference =>
    cases added : layout.addReference reference with
    | error error => exact .inl (by simpa [edit, added] using step)
    | ok result =>
      have extended :=
        (extends_addReference added).leads entry target (by simpa [edit, added] using step)
      exact extended.imp_right And.right
  | removeNode key =>
    cases removed : layout.removeNode? key with
    | none => exact .inl (by simpa [edit, removed] using step)
    | some result =>
      exact .inl (leads_of_removeNode? removed (by simpa [edit, removed] using step))

/-- Every target was there when it was first referred to. -/
theorem exists_contains_of_leads {start : Layout Float} (closed : start.Closed)
    (edits : List (Edit Float)) {entry target : Target}
    (step : (start.run edits).Leads entry target) :
    ∃ earlier, earlier <+: edits ∧ (start.run earlier).contains target := by
  induction edits using List.reverseRecOn with
  | nil => exact ⟨[], List.nil_prefix, closed entry target step⟩
  | append_singleton edits change ih =>
    have before : edits <+: edits ++ [change] := List.prefix_append _ _
    rw [run, List.foldl_append] at step
    rcases leads_edit step with kept | present
    · obtain ⟨earlier, within, present⟩ := ih kept
      exact ⟨earlier, within.trans before, present⟩
    · exact ⟨edits, before, present⟩

theorem Origin.closed {start : Layout Float} (origin : start.Origin) : start.Closed := by
  intro entry target step
  rcases origin.sound.accounted entry target step with present | past
  · exact present
  · cases target with
    | node key =>
      obtain ⟨_, steps, _, positive, bound, _⟩ := past
      omega
    | reference key => exact past.elim

/-- Only nodes are ever missing, and those have been removed. -/
theorem exists_removed {start : Layout Float} (origin : start.Origin) (edits : List (Edit Float))
    {removals : Nat} (sound : (start.run edits).Sound removals) {entry target : Target}
    (step : (start.run edits).Leads entry target) (absent : ¬ (start.run edits).contains target) :
    ∃ key, target = .node key ∧ start.Removed edits key := by
  cases target with
  | node key => exact ⟨key, rfl, exists_contains_of_leads origin.closed edits step, absent⟩
  | reference key => exact absurd ((sound.accounted entry _ step).resolve_right id) absent

/-- An edited layout with finite numbers is loaded from what was saved of it exactly if nothing in it
refers to a node that was removed, and otherwise refused as stale. What is loaded has the same name,
the same entries under the same keys, all places in the same generations, and the same text. -/
theorem load_save {start : Layout Float} (origin : start.Origin) (edits : List (Edit Float))
    (few : edits.countP Edit.isRemoval < Arena.lifespan) (finite : (start.run edits).IsFinite)
    (addressable : (start.run edits).IsAddressable) :
    ((∃ loaded, load (start.run edits).save = .ok loaded) ↔
        ¬ ∃ entry key, (start.run edits).Leads entry (.node key) ∧ start.Removed edits key) ∧
      (∀ error, load (start.run edits).save = .error error → error = .layout (.staleKey .node)) ∧
      ∀ loaded, load (start.run edits).save = .ok loaded →
        loaded.name = (start.run edits).name ∧
        loaded.nodes.entries = (start.run edits).nodes.entries ∧
        loaded.references.entries = (start.run edits).references.entries ∧
        loaded.nodes.slots = (start.run edits).nodes.slots ∧
        loaded.references.slots = (start.run edits).references.slots ∧
        loaded.save = (start.run edits).save := by
  have sound := origin.sound.run edits (by omega)
  have reachable : ∀ entry target, (start.run edits).Leads entry target → target.IsReachable :=
    fun _ _ step => sound.isReachable addressable step
  rcases load_save_of_acyclic finite reachable sound.acyclic with ⟨success, closed⟩ | failure
  · rw [success]
    refine ⟨⟨fun _ dangling => ?_, fun _ => ⟨_, rfl⟩⟩, fun error failed => ?_, fun loaded same => ?_⟩
    · obtain ⟨entry, key, step, _, absent⟩ := dangling
      exact absent (closed entry _ step)
    · cases failed
    · cases same
      exact ⟨rfl, Arena.entries_of_slots (Arena.slots_reloaded _),
        Arena.entries_of_slots (Arena.slots_reloaded _), Arena.slots_reloaded _,
        Arena.slots_reloaded _, save_reloaded _⟩
  · obtain ⟨entry, target, step, absent, failure⟩ := failure
    obtain ⟨key, rfl, removed⟩ := exists_removed origin edits sound step absent
    rw [failure]
    refine ⟨⟨fun success => ?_, fun complete => ?_⟩, fun error failed => ?_, fun loaded success => ?_⟩
    · obtain ⟨loaded, success⟩ := success
      cases success
    · exact absurd ⟨entry, key, step, removed⟩ complete
    · cases failed
      rfl
    · cases success

def shared : Reference Float :=
  ⟨.node (.ofParts 1 1), .translate 0.1 1e22, .rename "m1" "line\n\"2\""⟩

/-- A leaf that is placed through a stored reference and directly, and a node that is removed. -/
def library : List (Edit Float) :=
  [.addNode ((NodeDraft.empty "leaf").addPolygons "m1" [.rectangle ⟨0.0, 0.0⟩ ⟨1.5, -2.0⟩]),
    .addReference shared,
    .addNode ⟨"top", .empty, [("a", .stackOn (.ofParts 1 1)),
      ("b", ⟨.node (.ofParts 1 1), .identity, .constant none⟩)], by simp, by simp⟩,
    .addNode (.empty "spare"),
    .removeNode (.ofParts 3 1)]

/-- The library without its leaf. -/
def hollowed : List (Edit Float) := library ++ [.removeNode (.ofParts 1 1)]

theorem library_loads :
    (∃ loaded, load ((empty "lib").run library).save = .ok loaded ∧
      loaded.nodes.slots = ((empty "lib").run library).nodes.slots) ∧
    load ((empty "lib").run hollowed).save = .error (.layout (.staleKey .node)) := by
  constructor
  · have whole := load_save (.empty "lib") library (by decide) (by decide +kernel) (by decide)
    have checked : ((empty "lib").run library : Layout Float).validate = .ok () := rfl
    have closed := closed_of_grounded (grounded_of_validate checked)
    obtain ⟨loaded, success⟩ := whole.1.mpr fun dangling => by
      obtain ⟨entry, key, step, _, absent⟩ := dangling
      exact absent (closed entry _ step)
    exact ⟨loaded, success, (whole.2.2 loaded success).2.2.2.1⟩
  · have broken := load_save (.empty "lib") hollowed (by decide) (by decide +kernel) (by decide)
    have stored : ((empty "lib").run hollowed).references.get? (.ofParts 1 1) = some shared := rfl
    have removed : (empty "lib").Removed hollowed (.ofParts 1 1) :=
      ⟨⟨library, List.prefix_append _ _, by decide⟩, by decide⟩
    cases result : load ((empty "lib").run hollowed).save with
    | ok loaded => exact absurd ⟨_, _, .stack stored, removed⟩ (broken.1.mp ⟨loaded, result⟩)
    | error error => rw [broken.2.1 error result]

end MaskLayout.Layout
