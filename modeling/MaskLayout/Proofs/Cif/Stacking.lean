import MaskLayout.Proofs.Arena.Entries
import MaskLayout.Proofs.Cif.Depiction
import MaskLayout.Proofs.Layout.Visiting

/-!
How references are stacked is not seen. Whatever is asked of a design reads of a reference only the
node that it leads to and what applies on the way, so that two layouts whose children agree in this
give the same answers and the same errors.
-/
namespace MaskLayout

variable {K : Type} [Scalar K]

namespace Layout

/-- Two references that are seen alike, each in a layout of its own: they lead to the same node under
the same transform and the same layer map, or fail alike. Their own targets may differ. -/
structure SeenAlike (first second : Layout K) (reference twin : Reference K) : Prop where
  resolve : first.resolve reference = second.resolve twin
  transform : first.flatTransform reference none = second.flatTransform twin none
  layerMap : first.flatLayerMap reference none = second.flatLayerMap twin none

/-- Nodes with the same content, and with children of the same names that are seen alike. -/
structure AlikeNodes (first second : Layout K) (node twin : Node K) : Prop where
  name : node.name = twin.name
  geometry : node.geometry = twin.geometry
  children : List.Forall₂ (fun child other => child.1 = other.1 ∧ first.SeenAlike second child.2 other.2)
    node.children twin.children

/-- Layouts that hold nodes under the same keys, each like its counterpart. -/
def Alike (first second : Layout K) : Prop :=
  ∀ key, Option.Rel (first.AlikeNodes second) (first.nodes.get? key) (second.nodes.get? key)

section Decidable

variable [DecidableEq K] (first second : Layout K)

instance (reference twin : Reference K) : Decidable (first.SeenAlike second reference twin) :=
  decidable_of_iff (first.resolve reference = second.resolve twin ∧
      first.flatTransform reference none = second.flatTransform twin none ∧
      first.flatLayerMap reference none = second.flatLayerMap twin none)
    ⟨fun ⟨resolve, transform, layerMap⟩ => ⟨resolve, transform, layerMap⟩,
      fun same => ⟨same.resolve, same.transform, same.layerMap⟩⟩

instance (node twin : Node K) : Decidable (first.AlikeNodes second node twin) :=
  decidable_of_iff (node.name = twin.name ∧ node.geometry = twin.geometry ∧
      List.Forall₂ (fun child other => child.1 = other.1 ∧ first.SeenAlike second child.2 other.2)
        node.children twin.children)
    ⟨fun ⟨name, geometry, children⟩ => ⟨name, geometry, children⟩,
      fun same => ⟨same.name, same.geometry, same.children⟩⟩

end Decidable

variable {first second : Layout K}

private theorem SeenAlike.placement {reference twin : Reference K}
    (same : first.SeenAlike second reference twin) :
    first.placement reference = second.placement twin := by
  rw [placement_eq, placement_eq, same.resolve, same.transform, same.layerMap]

private theorem SeenAlike.toNode (first second : Layout K) (key : NodeKey) :
    first.SeenAlike second (.toNode key) (.toNode key) := by
  have chain (layout : Layout K) : layout.chain (.toNode key) = .ok ⟨[.toNode key], key⟩ := by
    unfold Layout.chain follow
    rfl
  constructor
  · simp only [Layout.resolve, chain]
  · simp only [Layout.flatTransform, chain]
  · simp only [Layout.flatLayerMap, chain]

/-- What is found under a key: like nodes, or the same error. -/
theorem Alike.node (alike : first.Alike second) (key : NodeKey) :
    (∃ node twin, first.node key = .ok node ∧ second.node key = .ok twin ∧
      first.AlikeNodes second node twin) ∨
    ∃ error, first.node key = .error error ∧ second.node key = .error error := by
  have same := alike key
  unfold Layout.node
  generalize first.nodes.get? key = found, second.nodes.get? key = other at same
  cases same with
  | some pair => exact .inl ⟨_, _, rfl, rfl, pair⟩
  | none => exact .inr ⟨_, rfl, rfl⟩

/-- Layouts are alike if their nodes are, listed by their keys. -/
theorem Alike.of_entries (pairs : List.Forall₂ (fun entry other => entry.1 = other.1 ∧
      first.AlikeNodes second entry.2 other.2) first.nodes.entries second.nodes.entries) :
    first.Alike second := by
  intro key
  cases found : first.nodes.get? key with
  | some node =>
    obtain ⟨⟨_, twin⟩, listed, rfl, same⟩ :=
      exists_mem_of_forall₂ pairs.flip (Arena.mem_entries_iff.mpr found)
    rw [Arena.mem_entries_iff.mp listed]
    exact .some same
  | none =>
    cases there : second.nodes.get? key with
    | none => exact .none
    | some twin =>
      obtain ⟨⟨_, node⟩, listed, rfl, _⟩ := exists_mem_of_forall₂ pairs (Arena.mem_entries_iff.mpr there)
      cases found.symm.trans (Arena.mem_entries_iff.mp listed)

private theorem Alike.count_nodes (alike : first.Alike second) :
    first.nodes.count = second.nodes.count := by
  refine Arena.count_eq_of_contains fun key => ?_
  have same := alike key
  unfold Arena.contains
  generalize first.nodes.get? key = found, second.nodes.get? key = other at same
  cases same <;> rfl

private theorem AlikeNodes.placementsBelow {node twin : Node K}
    (same : first.AlikeNodes second node twin)
    (placement : Placement K) :
    first.placementsBelow placement node = second.placementsBelow placement twin := by
  have pairs := List.forall₂_reverse_iff.mpr same.children
  unfold Layout.placementsBelow
  rw [mapM_congr (pairs.imp fun child other seen => ?_)]
  simp only [seen.2.placement]

private theorem Alike.enter (alike : first.Alike second) (placement : Placement K)
    (geometry : LayerGeometry K) :
    first.enter placement geometry = second.enter placement geometry := by
  unfold Layout.enter
  rcases alike.node placement.node with ⟨node, twin, found, there, same⟩ | ⟨error, missing, absent⟩
  · have deposit : placement.deposit node geometry = placement.deposit twin geometry := by
      simp only [Placement.deposit, same.geometry]
    rw [found, there, ok_bind, ok_bind, deposit, same.placementsBelow]
  · rw [missing, absent, error_bind, error_bind]

private theorem Alike.visit (alike : first.Alike second) (pending : List (Nat × Placement K))
    (geometry : LayerGeometry K) : first.visit pending geometry = second.visit pending geometry := by
  induction pending, geometry using first.visit_induction with
  | nil geometry => rw [visit_nil, visit_nil]
  | skip depth placement rest geometry discards ih => rw [visit_skip discards, visit_skip discards, ih]
  | endless placement rest geometry kept => rw [visit_endless kept, visit_endless kept]
  | enter depth placement rest geometry kept ih =>
    rw [visit_enter kept, visit_enter kept, ← alike.enter]
    cases entered : first.enter placement geometry with
    | error error => rw [error_bind, error_bind]
    | ok left =>
      rw [ok_bind, ok_bind]
      exact ih _ _ entered

private theorem SeenAlike.flatten {reference twin : Reference K}
    (same : first.SeenAlike second reference twin)
    (alike : first.Alike second) : first.flatten reference = second.flatten twin := by
  unfold Layout.flatten
  simp only [same.placement, alike.count_nodes, alike.visit]

end Layout

namespace Cif

variable {first second : Layout K}

/-- Subjects that correspond: the same node, or references that are seen alike. -/
inductive Subject.Alike (first second : Layout K) : Subject K → Subject K → Prop where
  | node (key : NodeKey) : Alike first second (.node key) (.node key)
  | reference {root twin : Reference K} (same : first.SeenAlike second root twin) :
      Alike first second (.reference root) (.reference twin)

private theorem Subject.Alike.seen {subject twin : Subject K}
    (same : Subject.Alike first second subject twin) :
    first.SeenAlike second subject.asReference twin.asReference := by
  cases same with
  | node key => exact .toNode first second key
  | reference same => exact same

section Compiling

variable (alike : first.Alike second) (settings : Settings K)

include alike

private theorem edge_congr {reference twin : Reference K} (same : first.SeenAlike second reference twin)
    (layerMap : LayerMap) (name : String) :
    edge first settings layerMap name reference = edge second settings layerMap name twin := by
  simp only [edge, same.transform, same.resolve, same.layerMap, same.flatten alike]

private theorem body_congr (fragment : Fragment) :
    body first settings fragment = body second settings fragment := by
  unfold body
  rcases alike.node fragment.node with ⟨node, twin, found, there, same⟩ | ⟨error, missing, absent⟩
  · rw [found, there, ofLayout_ok, ofLayout_ok, ok_bind, ok_bind, same.geometry,
      mapM_congr (same.children.imp fun child other seen => ?_)]
    simp only [seen.1]
    exact edge_congr alike settings seen.2 fragment.layerMap other.1
  · rw [missing, absent, ofLayout_error, error_bind, error_bind]

private theorem pass_congr (defined : Defined K) (pending : List Fragment) :
    pass first settings defined pending = pass second settings defined pending := by
  have same : define first settings = define second settings := by
    funext state fragment
    simp only [define, body_congr alike]
  rw [pass, pass, same]

private theorem passes_congr (allowance : Nat) (defined : Defined K) (pending : List Fragment) :
    passes first settings allowance defined pending =
      passes second settings allowance defined pending := by
  induction allowance generalizing defined pending with
  | zero =>
    unfold passes
    rw [pass_congr alike]
  | succ allowance ih =>
    unfold passes
    rw [pass_congr alike]
    simp only [ih]

private theorem outline_congr (root : Fragment) :
    outline first settings root = outline second settings root := by
  unfold outline
  rw [alike.count_nodes, passes_congr alike]

private theorem subject_edge_congr {subject twin : Subject K}
    (same : Subject.Alike first second subject twin) :
    subject.edge first settings = twin.edge second settings := by
  cases same with
  | reference same => exact edge_congr alike settings same .identity rootName
  | node key =>
    unfold Subject.edge
    rcases alike.node key with ⟨node, twin, found, there, _⟩ | ⟨error, missing, absent⟩
    · simp only [found, there, ofLayout_ok, ok_bind]
    · simp only [missing, absent]

private theorem compile_congr {subject twin : Subject K}
    (same : Subject.Alike first second subject twin) :
    compile first settings subject = compile second settings twin := by
  rw [compile_eq, compile_eq]
  unfold Subject.outline
  rw [subject_edge_congr alike settings same]
  simp only [outline_congr alike]

end Compiling

/-- Stacking is not seen: where children are seen alike, and the subjects are, flattening, the box and
compiling give the same answers and the same errors, down to the text. -/
theorem stacking_unseen (alike : first.Alike second) {subject twin : Subject K}
    (same : Subject.Alike first second subject twin) :
    first.flatten subject.asReference = second.flatten twin.asReference ∧
      first.box subject.asReference = second.box twin.asReference ∧
      ∀ settings, compile first settings subject = compile second settings twin ∧
        ∀ space, write first settings space subject = write second settings space twin := by
  have flattened := same.seen.flatten alike
  refine ⟨flattened, ?_, fun settings => ?_⟩
  · unfold Layout.box
    rw [flattened]
  · have compiled := compile_congr alike settings same
    refine ⟨compiled, fun space => ?_⟩
    rw [write_eq, write_eq, compiled]

/-- A pad that is placed twice, and a cell with a part that is missing. -/
def assembly : Layout Float where
  name := "assembly"
  nodes := .ofSlots [
    .fresh ⟨"pad", LayerGeometry.add .empty "metal" [.rectangle ⟨0, 0⟩ ⟨1, 1⟩], []⟩,
    .fresh ⟨"pair", .empty, [
      ("left", ⟨.node (.ofParts 1 1), .translate 3 0, .rename "metal" "poly"⟩),
      ("large", ⟨.node (.ofParts 1 1), .scale 2 2, .identity⟩)]⟩,
    .fresh ⟨"torso", .empty, [("part", .stackOn (.ofParts 1 1))]⟩]
  references := .empty

/-- The assembly with its parts stacked on shared references. -/
def restacked : Layout Float where
  name := "restacked"
  nodes := .ofSlots [
    .fresh ⟨"pad", LayerGeometry.add .empty "metal" [.rectangle ⟨0, 0⟩ ⟨1, 1⟩], []⟩,
    .fresh ⟨"pair", .empty, [
      ("left", .stackOn (.ofParts 2 1)), ("large", .stackOn (.ofParts 3 1))]⟩,
    .fresh ⟨"torso", .empty, [("part", .stackOn (.ofParts 4 1))]⟩]
  references := .ofSlots [
    .fresh ⟨.node (.ofParts 1 1), .translate 1 0, .rename "metal" "m1"⟩,
    .fresh ⟨.reference (.ofParts 1 1), .translate 2 0, .rename "m1" "poly"⟩,
    .fresh ⟨.node (.ofParts 1 1), .scale 2 2, .identity⟩,
    .fresh (.stackOn (.ofParts 9 1)),
    .fresh ⟨.node (.ofParts 2 1), .translate 0 5, .identity⟩]

/-- The pair of the assembly, moved by a reference of its own. -/
def raised : Reference Float := ⟨.node (.ofParts 2 1), .translate 0 5, .identity⟩

theorem restacked_unseen :
    assembly.Alike restacked ∧ assembly.SeenAlike restacked raised (.stackOn (.ofParts 5 1)) ∧
      assembly.flatten raised = restacked.flatten (.stackOn (.ofParts 5 1)) ∧
      assembly.box raised = restacked.box (.stackOn (.ofParts 5 1)) ∧
      ∀ settings, compile assembly settings (.reference raised) =
          compile restacked settings (.reference (.stackOn (.ofParts 5 1))) ∧
        ∀ space, write assembly settings space (.reference raised) =
          write restacked settings space (.reference (.stackOn (.ofParts 5 1))) := by
  have alike : assembly.Alike restacked := .of_entries (by decide +kernel)
  have same : assembly.SeenAlike restacked raised (.stackOn (.ofParts 5 1)) := by decide +kernel
  exact ⟨alike, same, stacking_unseen alike (.reference same)⟩

end Cif

end MaskLayout
