import MaskLayout.Binary64.Scalar
import MaskLayout.Proofs.Layout.Hierarchy
import MaskLayout.Proofs.Outcome

/-!
The check of a layout is exact. The search keeps the open entries on one way down, each below those
that were opened before it, and calls only such entries done as have nothing missing and no circle
below them.
-/
namespace MaskLayout.Layout

variable {K : Type} {layout : Layout K}

/-- An entry that is there with all that lies below it, where every way down comes to an end. -/
inductive Grounded (layout : Layout K) : Target → Prop where
  | intro {entry : Target} (present : layout.contains entry)
      (below : ∀ next, layout.Leads entry next → Grounded layout next) : Grounded layout entry

private theorem Grounded.contains {entry : Target} (grounded : layout.Grounded entry) :
    layout.contains entry := by
  cases grounded with
  | intro present below => exact present

private theorem Grounded.next {entry next : Target} (grounded : layout.Grounded entry)
    (step : layout.Leads entry next) : layout.Grounded next := by
  cases grounded with
  | intro present below => exact below next step

private theorem Grounded.not_below {entry : Target} (grounded : layout.Grounded entry) :
    ¬ layout.Below entry entry := by
  induction grounded with
  | intro present below ih =>
    intro cycle
    -- The same circle can be entered one step later.
    obtain ⟨next, first, rest⟩ := Relation.TransGen.head'_iff.mp cycle
    exact ih next first (.tail' rest first)

/-- What the check complains of. -/
inductive Fault (layout : Layout K) : LayoutError → Prop where
  | dangling {entry target : Target} (step : layout.Leads entry target)
      (absent : ¬ layout.contains target) : Fault layout (.staleKey target.kind)
  | circle {entry : Target} (round : layout.Below entry entry) :
      Fault layout (.cycle (layout.cyclePoint entry))

theorem require_outcome (layout : Layout K) (target : Target) :
    Outcome (fun _ => layout.contains target)
      (fun error => ¬ layout.contains target ∧ error = .staleKey target.kind)
      (layout.require target) := by
  unfold require
  split
  · rename_i present
    exact present
  · rename_i absent
    exact ⟨absent, rfl⟩

private theorem successors_outcome {vertex : Target} (present : layout.contains vertex) :
    Outcome (fun targets => (∀ target, target ∈ targets ↔ layout.Leads vertex target) ∧
        ∀ target ∈ targets, layout.contains target)
      layout.Fault (layout.successors vertex) := by
  obtain ⟨targets, found, listed⟩ := targets_of_contains present
  have checked : Outcome (fun _ => ∀ target ∈ targets, layout.contains target) layout.Fault
      (targets.forM layout.require) := by
    apply Outcome.forM
    intro target member
    have outcome := layout.require_outcome target
    cases required : layout.require target with
    | ok value =>
      rw [required] at outcome
      exact outcome
    | error error =>
      rw [required] at outcome
      obtain ⟨absent, rfl⟩ := outcome
      exact .dangling ((listed target).mp member) absent
  unfold successors
  rw [found]
  exact checked.bind fun _ present => ⟨listed, present⟩

/-- The open entries with the one that is next: one way down, on which none comes twice. -/
structure Trail (layout : Layout K) (isOpen : List Target) (vertex : Target) : Prop where
  present : ∀ entry ∈ vertex :: isOpen, layout.contains entry
  leading : ∀ entry ∈ isOpen, layout.Below vertex entry
  distinct : (vertex :: isOpen).Nodup

private theorem Trail.start {vertex : Target} (present : layout.contains vertex) :
    layout.Trail [] vertex :=
  ⟨by simpa using present, by simp, by simp⟩

private theorem Trail.length_le {isOpen : List Target} {vertex : Target}
    (trail : layout.Trail isOpen vertex) : isOpen.length < layout.vertices.length :=
  trail.distinct.length_le_of_subset fun entry member => mem_vertices_iff.mpr (trail.present entry member)

/-- From an open entry the way leads on to every target of the last one. -/
theorem Trail.below {isOpen : List Target} {vertex next entry : Target}
    (trail : layout.Trail isOpen vertex) (step : layout.Leads vertex next)
    (member : entry ∈ vertex :: isOpen) : layout.Below next entry := by
  rcases List.mem_cons.mp member with same | earlier
  · rw [same]
    exact .single step
  · exact (trail.leading entry earlier).tail step

private theorem Trail.next {isOpen : List Target} {vertex next : Target}
    (trail : layout.Trail isOpen vertex)
    (step : layout.Leads vertex next) (present : layout.contains next)
    (unseen : next ∉ vertex :: isOpen) : layout.Trail (vertex :: isOpen) next where
  present := List.forall_mem_cons.mpr ⟨present, trail.present⟩
  leading _ member := trail.below step member
  distinct := List.nodup_cons.mpr ⟨unseen, trail.distinct⟩

private theorem explore_outcome {steps : Nat} {isOpen done : List Target} {vertex : Target}
    (trail : layout.Trail isOpen vertex) (enough : layout.vertices.length ≤ steps + isOpen.length)
    (settled : ∀ entry ∈ done, layout.Grounded entry) :
    Outcome (fun found => (∀ entry ∈ found, layout.Grounded entry) ∧ layout.Grounded vertex)
      layout.Fault (layout.explore steps isOpen done vertex) := by
  induction steps generalizing isOpen done vertex with
  | zero =>
    have room := trail.length_le
    omega
  | succ steps ih =>
    have outcome := successors_outcome (trail.present vertex (by simp))
    unfold explore
    cases found : layout.successors vertex with
    | error error =>
      rw [found] at outcome
      exact outcome
    | ok successors =>
      rw [found] at outcome
      obtain ⟨listed, present⟩ := outcome
      refine (Outcome.foldlM (fun done => ∀ entry ∈ done, layout.Grounded entry) layout.Grounded
        successors ?_ settled).bind ?_
      · intro next member done settled
        have step := (listed next).mp member
        split
        · rename_i again
          exact .circle (trail.below step again)
        · rename_i unseen
          split
          · rename_i known
            exact ⟨settled, settled next known⟩
          · exact ih (trail.next step (present next member) unseen)
              (by simp only [List.length_cons]; omega) settled
      · intro found settled
        obtain ⟨settled, below⟩ := settled
        have grounded : layout.Grounded vertex :=
          .intro (trail.present vertex (by simp)) fun next step => below next ((listed next).mpr step)
        exact ⟨List.forall_mem_cons.mpr ⟨grounded, settled⟩, grounded⟩

private theorem validate_outcome (layout : Layout K) :
    Outcome (fun _ => ∀ entry, layout.contains entry → layout.Grounded entry) layout.Fault
      layout.validate := by
  refine (Outcome.foldlM (fun done => ∀ entry ∈ done, layout.Grounded entry) layout.Grounded
    layout.vertices ?_ (by simp)).bind ?_
  · intro vertex member done settled
    split
    · rename_i known
      exact ⟨settled, settled vertex known⟩
    · exact explore_outcome (.start (mem_vertices_iff.mp member)) (by simp) settled
  · intro done reached entry present
    exact reached.2 entry (mem_vertices_iff.mpr present)

theorem closed_of_grounded (grounded : ∀ entry, layout.contains entry → layout.Grounded entry) :
    layout.Closed := by
  intro entry target step
  exact ((grounded entry step.contains).next step).contains

theorem acyclic_of_grounded (grounded : ∀ entry, layout.contains entry → layout.Grounded entry) :
    layout.Acyclic := by
  intro entry round
  exact (grounded entry round.contains).not_below round

theorem grounded_of_validate (passed : layout.validate = .ok ()) :
    ∀ entry, layout.contains entry → layout.Grounded entry := by
  have outcome := layout.validate_outcome
  rw [passed] at outcome
  exact outcome

theorem fault_of_validate {error : LayoutError} (failed : layout.validate = .error error) :
    layout.Fault error := by
  have outcome := layout.validate_outcome
  rw [failed] at outcome
  exact outcome

private theorem Fault.not_closed_or_not_acyclic {error : LayoutError} (fault : layout.Fault error) :
    ¬ (layout.Closed ∧ layout.Acyclic) := by
  intro both
  obtain ⟨closed, acyclic⟩ := both
  cases fault with
  | dangling step absent => exact absent (closed _ _ step)
  | circle round => exact acyclic _ round

private theorem cyclePoint_ne_removedNode {entry : Target} (present : layout.contains entry) :
    layout.cyclePoint entry ≠ .removedNode := by
  cases entry with
  | node key =>
    obtain ⟨node, found⟩ := contains_node_iff.mp present
    simp [cyclePoint, found]
  | reference key => simp [cyclePoint]

/-- The check passes exactly the layouts in which every target is there and no entry lies below
itself. Otherwise it names the kind of a missing target, or an entry that does lie below itself. -/
theorem validate_exact (layout : Layout K) :
    (layout.validate = .ok () ↔ layout.Closed ∧ layout.Acyclic) ∧
      ∀ error, layout.validate = .error error →
        (∃ entry target, layout.Leads entry target ∧ ¬ layout.contains target ∧
          error = .staleKey target.kind) ∨
        (∃ entry, layout.Below entry entry ∧ error = .cycle (layout.cyclePoint entry) ∧
          layout.cyclePoint entry ≠ .removedNode) := by
  refine ⟨⟨fun passed => ?_, fun ⟨closed, acyclic⟩ => ?_⟩, fun error failed => ?_⟩
  · have grounded := grounded_of_validate passed
    exact ⟨closed_of_grounded grounded, acyclic_of_grounded grounded⟩
  · cases result : layout.validate with
    | ok value => rfl
    | error error =>
      exact absurd ⟨closed, acyclic⟩ (fault_of_validate result).not_closed_or_not_acyclic
  · cases fault_of_validate failed with
    | dangling step absent => exact .inl ⟨_, _, step, absent, rfl⟩
    | circle round => exact .inr ⟨_, round, rfl, cyclePoint_ne_removedNode round.contains⟩

/-- A node with a child that is stacked on a reference back to the node. -/
def ring : Layout Float where
  name := "ring"
  nodes := .ofSlots [⟨1, some ⟨"turn", .empty, [("up", .stackOn (.ofParts 1 1))]⟩, by simp⟩]
  references := .ofSlots [⟨1, some (.toNode (.ofParts 1 1)), by simp⟩]

theorem ring_cycle : ∃ entry, ring.Below entry entry ∧ ring.cyclePoint entry = .node "turn" := by
  have failed : ring.validate = .error (.cycle (.node "turn")) := rfl
  rcases (validate_exact ring).2 _ failed with ⟨entry, target, _, _, same⟩ | ⟨entry, round, same, _⟩
  · cases same
  · exact ⟨entry, round, (LayoutError.cycle.inj same).symm⟩

end MaskLayout.Layout
