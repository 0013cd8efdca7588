import MaskLayout.Proofs.Layout.Runs
import MaskLayout.Proofs.Saved.Arena
import MaskLayout.Proofs.Saved.Geometry

namespace MaskLayout

open Json

/-- The place of a target. -/
def Target.index : Target → Nat
  | node key => key.index
  | reference key => key.index

/-- Whether a target has a place that can be written down. -/
def Target.IsReachable (target : Target) : Prop := target.index < Key.nowhere

def Reference.IsFinite (reference : Reference Float) : Prop := reference.transform.IsFinite

def Node.IsFinite (node : Node Float) : Prop :=
  node.geometry.IsFinite ∧ ∀ child ∈ node.children, child.2.IsFinite

/-- Every coordinate and every entry of a transform is finite. -/
def Layout.IsFinite (layout : Layout Float) : Prop :=
  (∀ entry ∈ layout.nodes.entries, entry.2.IsFinite) ∧
    ∀ entry ∈ layout.references.entries, entry.2.IsFinite

instance (reference : Reference Float) : Decidable reference.IsFinite :=
  inferInstanceAs (Decidable reference.transform.IsFinite)

instance (node : Node Float) : Decidable node.IsFinite :=
  inferInstanceAs (Decidable (_ ∧ ∀ child ∈ node.children, child.2.IsFinite))

instance (layout : Layout Float) : Decidable layout.IsFinite :=
  inferInstanceAs (Decidable (_ ∧ _))

private theorem Target.restores {target : Target} (reachable : target.IsReachable) :
    Restores Target.ofReading? target.toJson target := by
  cases target with
  | node key =>
    have found : payload? "Node" = some fun payload => (Key.ofReading? payload).map node := rfl
    exact restores_payload (fun _ => none) found ((Key.restores reachable).map node)
  | reference key =>
    have found : payload? "Reference" = some fun payload => (Key.ofReading? payload).map reference := rfl
    exact restores_payload (fun _ => none) found ((Key.restores reachable).map reference)

private theorem Reference.restores {reference : Reference Float} (finite : reference.IsFinite)
    (reachable : reference.target.IsReachable) :
    Restores Reference.ofReading? reference.toJson reference := by
  have target := Target.restores reachable
  have transform := Transform.restores finite
  have layers := LayerMap.restores reference.layerMap
  refine ⟨.object (by simp [target.regular, transform.regular, layers.regular]), ?_⟩
  simp [ofReading?, toJson, Field.head, Field.tail, target.decoded, transform.decoded, layers.decoded,
    pure, Except.pure]

private theorem Node.restores {node : Node Float} (finite : node.IsFinite)
    (reachable : ∀ child ∈ node.children, child.2.target.IsReachable) :
    Restores Node.ofReading? node.toJson node := by
  have name := restores_string node.name
  have geometry := LayerGeometry.restores finite.1
  have children := restores_list
    (fun child : String × Reference Float => .array [.string child.1, child.2.toJson])
    fun child member => restores_pair (restores_string child.1)
      (Reference.restores (finite.2 child member) (reachable child member))
  refine ⟨.object (by simp [name.regular, geometry.regular, children.regular]), ?_⟩
  simp [ofReading?, toJson, Field.head, Field.tail, name.decoded, geometry.decoded, children.decoded,
    pure, Except.pure]

private theorem Arena.exists_key {kind : Kind} {α : Type} {arena : Arena kind α} {slot : Slot α}
    {value : α}
    (member : slot ∈ arena.slots.toList) (held : slot.value? = some value) :
    ∃ key, arena.get? key = some value := by
  obtain ⟨position, found⟩ := List.mem_iff_getElem?.mp member
  have odd : slot.version % 2 = 1 := slot.parity.mp (by simp [held])
  refine ⟨⟨position + 1, slot.version, odd⟩, get?_eq_some_iff.mpr ⟨slot, ?_, rfl, held⟩⟩
  exact slot?_eq_some_iff.mpr ⟨by simp, by simpa using found⟩

private theorem Arena.index_le_of_slot? {kind : Kind} {α : Type} {arena : Arena kind α} {key : Key kind}
    {slot : Slot α} (here : arena.slot? key = some slot) : key.index ≤ arena.slots.size := by
  obtain ⟨_, found⟩ := slot?_eq_some_iff.mp here
  have within := (Array.getElem?_eq_some_iff.mp found).1
  omega

namespace Layout

/-- The layout as it is decoded, with the last vacant places to be filled first. -/
def reloaded (layout : Layout Float) : Layout Float :=
  ⟨layout.name, layout.nodes.reloaded, layout.references.reloaded⟩

/-- Every place has a number of 32 bits, and not the one that stands for no place. A store takes in
nothing beyond these. -/
def IsAddressable (layout : Layout Float) : Prop :=
  layout.nodes.slots.size < Key.nowhere ∧ layout.references.slots.size < Key.nowhere

instance (layout : Layout Float) : Decidable layout.IsAddressable :=
  inferInstanceAs (Decidable (_ ∧ _))

theorem restores {layout : Layout Float} (finite : layout.IsFinite)
    (reachable : ∀ entry target, layout.Leads entry target → target.IsReachable) :
    Restores Layout.ofReading? layout.toJson layout.reloaded := by
  have name := restores_string layout.name
  have nodes : Restores (Arena.ofReading? Node.ofReading?) (layout.nodes.toJson Node.toJson)
      layout.nodes.reloaded := by
    refine Arena.restores (fun slot member node held => ?_) (fun node => by simp [Node.toJson])
    obtain ⟨key, found⟩ := Arena.exists_key member held
    exact Node.restores (finite.1 (key, node) (Arena.mem_entries_iff.mpr found))
      fun child listed => reachable _ _ (.child found listed)
  have references : Restores (Arena.ofReading? Reference.ofReading?)
      (layout.references.toJson Reference.toJson) layout.references.reloaded := by
    refine Arena.restores (fun slot member reference held => ?_)
      (fun reference => by simp [Reference.toJson])
    obtain ⟨key, found⟩ := Arena.exists_key member held
    exact Reference.restores (finite.2 (key, reference) (Arena.mem_entries_iff.mpr found))
      (reachable _ _ (.stack found))
  refine ⟨.object (by simp [name.regular, nodes.regular, references.regular]), ?_⟩
  simp [Layout.ofReading?, Layout.toJson, reloaded, Field.head, Field.tail, name.decoded,
    nodes.decoded, references.decoded, pure, Except.pure]

/-- A target that is there, or was, has a place in its store. -/
theorem Sound.isReachable {layout : Layout Float} {removals : Nat} (sound : layout.Sound removals)
    (addressable : layout.IsAddressable) {entry target : Target} (step : layout.Leads entry target) :
    target.IsReachable := by
  unfold Target.IsReachable
  rcases sound.accounted entry target step with present | past
  · cases target with
    | node key =>
      obtain ⟨node, found⟩ := contains_node_iff.mp present
      obtain ⟨slot, here, _⟩ := Arena.get?_eq_some_iff.mp found
      exact (Arena.index_le_of_slot? here).trans_lt addressable.1
    | reference key =>
      obtain ⟨reference, found⟩ := contains_reference_iff.mp present
      obtain ⟨slot, here, _⟩ := Arena.get?_eq_some_iff.mp found
      exact (Arena.index_le_of_slot? here).trans_lt addressable.2
  · cases target with
    | node key =>
      obtain ⟨slot, _, here, _⟩ := past
      exact (Arena.index_le_of_slot? here).trans_lt addressable.1
    | reference key => exact past.elim

theorem contains_reloaded (layout : Layout Float) (target : Target) :
    layout.reloaded.contains target = layout.contains target := by
  cases target <;> simp [Layout.contains, Arena.contains, reloaded]

theorem leads_reloaded {layout : Layout Float} {entry target : Target} :
    layout.reloaded.Leads entry target ↔ layout.Leads entry target := by
  constructor
  · intro step
    cases step with
    | child found member => exact .child (by simpa [reloaded] using found) member
    | stack found => exact .stack (by simpa [reloaded] using found)
  · intro step
    cases step with
    | child found member => exact .child (by simpa [reloaded] using found) member
    | stack found => exact .stack (by simpa [reloaded] using found)

theorem closed_reloaded {layout : Layout Float} : layout.reloaded.Closed ↔ layout.Closed := by
  simp only [Closed, leads_reloaded, contains_reloaded]

theorem acyclic_reloaded {layout : Layout Float} (acyclic : layout.Acyclic) :
    layout.reloaded.Acyclic := by
  intro entry round
  exact acyclic entry (Relation.TransGen.mono (fun _ _ => leads_reloaded.mp) entry entry round)

theorem save_reloaded (layout : Layout Float) : layout.reloaded.save = layout.save := by
  simp [save, Layout.toJson, reloaded, Arena.toJson_reloaded]

end Layout

end MaskLayout
