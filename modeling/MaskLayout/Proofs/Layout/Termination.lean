import MaskLayout.Proofs.Cif.Ways
import MaskLayout.Proofs.Layout.Visiting
import MaskLayout.Proofs.Loop

namespace MaskLayout

/-- Complaints of something that is not there, or of a layer that is not known. -/
def LayoutError.IsLookup : LayoutError → Prop
  | .staleKey _ | .unknownLayer _ => True
  | _ => False

/-- A computation that fails only for what it looks up. -/
abbrev Answers {α : Type} (result : Except LayoutError α) : Prop :=
  Outcome (fun _ => True) LayoutError.IsLookup result

private theorem Answers.foldlM {α σ : Type} {step : σ → α → Except LayoutError σ} (items : List α)
    (each : ∀ state item, Answers (step state item)) (state : σ) : Answers (items.foldlM step state) :=
  (Outcome.foldlM (fun _ => True) (fun _ => True) items
    (fun item _ state _ => (each state item).mono fun _ _ => ⟨trivial, trivial⟩) trivial).mono
    fun _ _ => trivial

theorem LayerMap.lookup_answers (map : LayerMap) (name : String) : Answers (map.lookup name) := by
  cases map with
  | identity => trivial
  | constant destination => trivial
  | table entries =>
    simp only [lookup]
    cases entries.find? name <;> trivial

theorem LayerMap.compose_answers (below above : LayerMap) : Answers (below.compose above) := by
  unfold compose
  split
  · trivial
  · trivial
  · trivial
  · trivial
  · rename_i name entries
    cases entries.find? name <;> trivial
  · trivial

theorem Chain.layerMap_answers {K : Type} [Scalar K] (chain : Chain K) (limit : Option Nat) :
    Answers (chain.layerMap limit) :=
  Answers.foldlM _ (fun below link => below.compose_answers link.layerMap) _

namespace Layout

variable {K : Type} {layout : Layout K}

theorem node_answers (layout : Layout K) (key : NodeKey) : Answers (layout.node key) := by
  unfold node
  split <;> trivial

theorem reference_answers (layout : Layout K) (key : ReferenceKey) : Answers (layout.reference key) := by
  unfold reference
  split <;> trivial

/-- One round of the walk down a stack of references: the references that it has met, and the current
one. -/
def descend (layout : Layout K) (state : List (Reference K) × Reference K) :
    Round (List (Reference K) × Reference K) (Except LayoutError (Chain K)) :=
  match state.2.target with
  | .node key => .stop (.ok ⟨state.1, key⟩)
  | .reference key =>
    match layout.reference key with
    | .error error => .stop (.error error)
    | .ok inner => .next (state.1 ++ [inner], inner)

private theorem descend_stacked {reference inner : Reference K} {key : ReferenceKey}
    (target : reference.target = .reference key) (found : layout.reference key = .ok inner)
    (met : List (Reference K)) : layout.descend (met, reference) = .next (met ++ [inner], inner) := by
  simp only [descend, target, found]

/-- Stored references that have been passed on the way down to an entry. -/
structure Passed (layout : Layout K) (passed : List ReferenceKey) (entry : Target) : Prop where
  distinct : passed.Nodup
  above : ∀ key ∈ passed, layout.Below entry (.reference key)

theorem Passed.start (layout : Layout K) (entry : Target) : layout.Passed [] entry := ⟨.nil, by simp⟩

theorem Passed.length_le {passed : List ReferenceKey} {entry : Target}
    (way : layout.Passed passed entry) : passed.length ≤ layout.references.count :=
  Arena.length_le_count way.distinct fun key member => (way.above key member).contains

theorem Passed.next (acyclic : layout.Acyclic) {passed : List ReferenceKey} {key : ReferenceKey}
    (way : layout.Passed passed (.reference key)) {inner : Reference K}
    (found : layout.references.get? key = some inner) : layout.Passed (key :: passed) inner.target where
  distinct := List.nodup_cons.mpr ⟨fun again => acyclic _ (way.above key again), way.distinct⟩
  above := List.forall_mem_cons.mpr ⟨.single (.stack found), fun upper member =>
    (way.above upper member).tail (.stack found)⟩

/-- The walk goes on as far as the references reach, since it passes none of them again. -/
theorem follow_ends (acyclic : layout.Acyclic) {allowance : Nat} {reference : Reference K}
    {passed : List ReferenceKey} (way : layout.Passed passed reference.target)
    (total : passed.length + allowance = layout.references.count) (met : List (Reference K)) :
    Answers (layout.follow allowance reference) ∧ ∃ rounds ≤ allowance + 1,
      Ends layout.descend rounds (met ++ [reference], reference)
        ((layout.follow allowance reference).map fun chain => ⟨met ++ chain.links, chain.node⟩) := by
  fun_induction layout.follow allowance reference generalizing passed met with
  | case1 allowance reference key target =>
    exact ⟨trivial, 1, by omega, .stop (by simp [descend, target, Except.map])⟩
  | case2 allowance reference key target error missing =>
    have answers : Answers (layout.reference key) := layout.reference_answers key
    rw [missing] at answers
    exact ⟨answers, 1, by omega, .stop (by simp [descend, target, missing, Except.map])⟩
  | case3 reference key target inner found =>
    rw [target] at way
    have room := (way.next acyclic (reference_eq_ok_iff.mp found)).length_le
    simp only [List.length_cons] at room
    omega
  | case4 reference key target inner found allowance error failed ih =>
    rw [target] at way
    have further := way.next acyclic (reference_eq_ok_iff.mp found)
    obtain ⟨answers, rounds, few, rest⟩ :=
      ih further (by simp only [List.length_cons]; omega) (met ++ [reference])
    rw [failed] at answers rest
    exact ⟨answers, rounds + 1, by omega, .next (descend_stacked target found _) rest⟩
  | case5 reference key target inner found allowance chain followed ih =>
    rw [target] at way
    have further := way.next acyclic (reference_eq_ok_iff.mp found)
    obtain ⟨answers, rounds, few, rest⟩ :=
      ih further (by simp only [List.length_cons]; omega) (met ++ [reference])
    rw [followed] at rest
    refine ⟨trivial, rounds + 1, by omega, .next (descend_stacked target found _) ?_⟩
    simpa [Except.map] using rest

/-- The walk down a stack ends by itself, with the chain or with what is missing. -/
theorem chain_ends (acyclic : layout.Acyclic) (reference : Reference K) :
    Answers (layout.chain reference) ∧ ∃ rounds ≤ layout.references.count + 1,
      Ends layout.descend rounds ([reference], reference) (layout.chain reference) := by
  obtain ⟨answers, rounds, few, walk⟩ :=
    follow_ends acyclic (.start layout reference.target) (Nat.zero_add _) []
  refine ⟨answers, rounds, few, ?_⟩
  unfold chain
  cases result : layout.follow layout.references.count reference with
  | error error => simpa [result, Except.map] using walk
  | ok chain => simpa [result, Except.map] using walk

variable [Scalar K]

/-- One round of flattening: the placements that are still to be visited, and the geometry so far. -/
def advance (layout : Layout K) (state : List (Placement K) × LayerGeometry K) :
    Round (List (Placement K) × LayerGeometry K) (Except LayoutError (LayerGeometry K)) :=
  match state with
  | ([], geometry) => .stop (.ok geometry)
  | (placement :: rest, geometry) =>
    if placement.layerMap = .discardAll then .next (rest, geometry)
    else match layout.enter placement geometry with
      | .error error => .stop (.error error)
      | .ok (children, added) => .next (children ++ rest, added)

omit [Scalar K] in
theorem resolve_answers (acyclic : layout.Acyclic) (reference : Reference K) :
    Answers (layout.resolve reference) :=
  (chain_ends acyclic reference).1.bind fun _ _ => trivial

theorem flatTransform_answers (acyclic : layout.Acyclic) (reference : Reference K) (limit : Option Nat) :
    Answers (layout.flatTransform reference limit) :=
  (chain_ends acyclic reference).1.bind fun _ _ => trivial

theorem flatLayerMap_answers (acyclic : layout.Acyclic) (reference : Reference K) (limit : Option Nat) :
    Answers (layout.flatLayerMap reference limit) :=
  (chain_ends acyclic reference).1.bind fun chain _ => chain.layerMap_answers limit

private theorem placement_answers (acyclic : layout.Acyclic) (reference : Reference K) :
    Answers (layout.placement reference) :=
  (chain_ends acyclic reference).1.bind fun chain _ =>
    (chain.layerMap_answers none).bind fun _ _ => trivial

/-- Entering a placement fails for what it looks up, or as the children's placements fail. -/
theorem enter_fails_as {bad : LayoutError → Prop} (lookups : ∀ error, error.IsLookup → bad error)
    (placed : ∀ reference, FailsOnly bad (layout.placement reference)) (placement : Placement K)
    (geometry : LayerGeometry K) : FailsOnly bad (layout.enter placement geometry) := by
  have looked {α : Type} {result : Except LayoutError α} (answers : Answers result) :
      FailsOnly bad result := answers.weaken (fun _ _ => trivial) lookups
  refine (looked (layout.node_answers placement.node)).bind fun node _ => ?_
  have deposited : Answers (placement.deposit node geometry) := by
    refine Answers.foldlM _ (fun before entry => ?_) _
    refine (placement.layerMap.lookup_answers entry.1).bind fun destination _ => ?_
    cases destination <;> trivial
  have below : FailsOnly bad (layout.placementsBelow placement node) := by
    refine (Outcome.mapM (fun _ => True) _ fun child _ => ?_).bind fun children _ => trivial
    refine (placed child.2).bind fun inner _ => ?_
    exact looked ((inner.layerMap.compose_answers placement.layerMap).bind fun layerMap _ => trivial)
  exact (looked deposited).bind fun added _ => below.bind fun children _ => trivial

private theorem enter_answers (acyclic : layout.Acyclic) (placement : Placement K)
    (geometry : LayerGeometry K) :
    Answers (layout.enter placement geometry) :=
  enter_fails_as (fun _ lookup => lookup) (placement_answers acyclic) placement geometry

theorem below_of_enter {placement : Placement K} {geometry added : LayerGeometry K}
    {children : List (Placement K)} (entered : layout.enter placement geometry = .ok (children, added))
    {child : Placement K} (member : child ∈ children) :
    layout.Below (.node child.node) (.node placement.node) := by
  obtain ⟨node, found, _, composed⟩ := enter_eq_ok_iff.mp entered
  obtain ⟨born, listed, pair⟩ := exists_mem_of_forall₂ (placementsBelow_eq_ok_iff.mp composed) member
  obtain ⟨inner, placed, seen⟩ := pair
  obtain ⟨layerMap, _, same⟩ := bind_eq_ok_iff.mp seen
  cases Except.ok.inj same
  exact below_of_resolve found listed (placement_eq_ok placed).1

/-- A visit is what the rounds come to, if every pending placement has enough depth left. -/
theorem visit_ends (acyclic : layout.Acyclic) (pending : List (Nat × Placement K))
    (geometry : LayerGeometry K) (roomy : ∀ entry ∈ pending, Cif.Roomy layout entry) :
    Answers (layout.visit pending geometry) ∧
      ∃ rounds, Ends layout.advance rounds (pending.map (·.2), geometry) (layout.visit pending geometry) := by
  induction pending, geometry using layout.visit_induction with
  | nil geometry =>
    rw [visit_nil]
    exact ⟨trivial, 1, .stop rfl⟩
  | skip depth placement rest geometry discards ih =>
    obtain ⟨answers, rounds, ends⟩ := ih (List.forall_mem_cons.mp roomy).2
    rw [visit_skip discards]
    exact ⟨answers, rounds + 1, .next (by simp only [advance, List.map_cons, discards, ↓reduceIte]) ends⟩
  | endless placement rest geometry kept =>
    exact absurd (List.forall_mem_cons.mp roomy).1.pos (by simp)
  | enter depth placement rest geometry kept ih =>
    obtain ⟨first, others⟩ := List.forall_mem_cons.mp roomy
    have answers := enter_answers acyclic placement geometry
    rw [visit_enter kept]
    cases entered : layout.enter placement geometry with
    | error error =>
      rw [entered] at answers
      rw [error_bind]
      exact ⟨answers, 1, .stop (by simp only [advance, List.map_cons, kept, ↓reduceIte, entered])⟩
    | ok result =>
      obtain ⟨children, added⟩ := result
      have lower : ∀ entry ∈ children.map (depth, ·) ++ rest, Cif.Roomy layout entry := by
        refine List.forall_mem_append.mpr ⟨fun entry member => ?_, others⟩
        obtain ⟨child, listed, rfl⟩ := List.mem_map.mp member
        exact first.child acyclic (below_of_enter entered listed)
      obtain ⟨answers, rounds, ends⟩ := ih children added entered lower
      rw [ok_bind]
      refine ⟨answers, rounds + 1, .next ?_ ends⟩
      simp only [advance, List.map_cons, kept, ↓reduceIte, entered, List.map_append, List.map_map,
        Function.comp_def, List.map_id']

/-- Flattening starts from one placement and ends by itself, with the geometry or with what is
missing. -/
theorem flatten_ends (acyclic : layout.Acyclic) (reference : Reference K) :
    Answers (layout.flatten reference) ∧
      ∀ root, layout.placement reference = .ok root → ∃ rounds collected,
        Ends layout.advance rounds ([root], .empty) collected ∧
          layout.flatten reference = collected.map fun geometry => ⟨root.node, geometry⟩ := by
  have start (root : Placement K) := visit_ends acyclic [(layout.nodes.count + 1, root)] .empty
    (List.forall_mem_singleton.mpr ⟨[], .nil, by simp, by simp⟩)
  constructor
  · refine (placement_answers acyclic reference).bind fun root _ => ?_
    exact (start root).1.bind fun geometry _ => trivial
  · intro root placed
    obtain ⟨_, rounds, ends⟩ := start root
    refine ⟨rounds, _, ends, ?_⟩
    rw [flatten, placed, ok_bind]
    rfl

end Layout

end MaskLayout
