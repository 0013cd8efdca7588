import MaskLayout.Proofs.Geometry.Box
import MaskLayout.Proofs.Layout.Termination

/-!
The box of a geometry is tight and the box of a reference is missing only where nothing was drawn. A
walk through any hierarchy complains of what it looks up or of circles, and never of an empty geometry.
-/
namespace MaskLayout

/-- What a walk complains of, also where references lead round in circles. -/
def LayoutError.IsWalk (error : LayoutError) : Prop := error.IsLookup ∨ error = .endless

namespace Layout

section Walks

variable {K : Type}

private theorem walks_of_answers {α : Type} {result : Except LayoutError α} (answers : Answers result) :
    FailsOnly LayoutError.IsWalk result :=
  answers.weaken (fun _ _ => trivial) fun _ => .inl

private theorem follow_walks (layout : Layout K) (allowance : Nat) (reference : Reference K) :
    FailsOnly LayoutError.IsWalk (layout.follow allowance reference) := by
  fun_induction layout.follow allowance reference with
  | case1 allowance reference key target => trivial
  | case2 allowance reference key target error missing =>
    have answers := layout.reference_answers key
    rw [missing] at answers
    exact .inl answers
  | case3 reference key target inner found => exact .inr rfl
  | case4 reference key target inner found allowance error failed ih =>
    rwa [failed] at ih
  | case5 reference key target inner found allowance chain followed ih => trivial

variable [Scalar K] (layout : Layout K)

private theorem placement_walks (reference : Reference K) :
    FailsOnly LayoutError.IsWalk (layout.placement reference) :=
  (layout.follow_walks layout.references.count reference).bind fun chain _ =>
    (walks_of_answers (chain.layerMap_answers none)).bind fun _ _ => trivial

private theorem visit_walks (pending : List (Nat × Placement K)) (geometry : LayerGeometry K) :
    FailsOnly LayoutError.IsWalk (layout.visit pending geometry) := by
  induction pending, geometry using layout.visit_induction with
  | nil geometry =>
    rw [visit_nil]
    trivial
  | skip depth placement rest geometry discards ih => rwa [visit_skip discards]
  | endless placement rest geometry kept =>
    rw [visit_endless kept]
    exact .inr rfl
  | enter depth placement rest geometry kept ih =>
    have walks : FailsOnly LayoutError.IsWalk (layout.enter placement geometry) :=
      enter_fails_as (fun _ => .inl) layout.placement_walks placement geometry
    rw [visit_enter kept]
    cases entered : layout.enter placement geometry with
    | error error =>
      rw [entered] at walks
      exact walks
    | ok left => exact ih left.1 left.2 entered

private theorem flatten_walks (reference : Reference K) :
    FailsOnly LayoutError.IsWalk (layout.flatten reference) :=
  (layout.placement_walks reference).bind fun root _ =>
    (layout.visit_walks [(layout.nodes.count + 1, root)] .empty).bind fun _ _ => trivial

/-- Only a geometry without points leaves a reference without a box. -/
theorem box_eq_emptyGeometry_iff (reference : Reference K) :
    layout.box reference = .error .emptyGeometry ↔
      ∃ flattened, layout.flatten reference = .ok flattened ∧ flattened.geometry.points = [] := by
  have walks := layout.flatten_walks reference
  unfold box
  cases result : layout.flatten reference with
  | error error =>
    rw [result] at walks
    rw [error_bind]
    refine iff_of_false (fun same => ?_) (fun ⟨flattened, found, _⟩ => nomatch found)
    cases Except.error.inj same
    rcases walks with lookup | circle
    · exact lookup.elim
    · cases circle
  | ok flattened =>
    rw [ok_bind]
    simp only [Except.ok.injEq, exists_eq_left', ← LayerGeometry.box?_eq_none_iff]
    cases flattened.geometry.box? with
    | none => exact iff_of_true rfl rfl
    | some box => exact iff_of_false (fun same => nomatch same) (fun same => nomatch same)

end Walks

/-- The box of a geometry depends on its points alone: it is tight around them, it is what the boxes of
the polygons come to in any order, and there is none exactly if there are no points. -/
theorem box_of_points {geometry : LayerGeometry Float}
    (ordered : ∀ point ∈ geometry.points, point.IsOrdered) :
    (geometry.box? = none ↔ ∀ polygon ∈ geometry.values.flatten, polygon.points = []) ∧
      (∀ box, geometry.box? = some box → box.Tight geometry.points ∧
        (∃ united : Box Float, united.Unites geometry.cornered) ∧
        ∀ united : Box Float, united.Unites geometry.cornered → box.Coincides united) ∧
      (∀ other : LayerGeometry Float, (∀ point, point ∈ other.points ↔ point ∈ geometry.points) →
        Option.Rel Box.Coincides geometry.box? other.box?) ∧
      ∀ (layout : Layout Float) (reference : Reference Float),
        layout.box reference = .error .emptyGeometry ↔
          ∃ flattened, layout.flatten reference = .ok flattened ∧ flattened.geometry.points = [] := by
  refine ⟨?_, fun box found => ?_, fun other same => LayerGeometry.regrouped ordered same,
    box_eq_emptyGeometry_iff⟩
  · rw [LayerGeometry.box?_eq_none_iff, LayerGeometry.points_eq_nil_iff]
  · have some : geometry.points ≠ [] := fun none => by
      rw [LayerGeometry.box?_eq_none_iff.mpr none] at found
      cases found
    exact ⟨LayerGeometry.tight_of_box? ordered found, LayerGeometry.exists_unites some,
      fun united => LayerGeometry.coincides_of_unites ordered found⟩

/-- Three points on two layers, one of them without end, beside a polygon and a layer without points. -/
def scattered : LayerGeometry Float :=
  .ofList [("metal", [⟨[]⟩, ⟨[⟨0, -0.0⟩, ⟨2, 1⟩]⟩]), ("unused", []), ("via", [⟨[⟨-0.0, 1 / 0⟩]⟩])]

/-- The same points in one polygon. -/
def gathered : LayerGeometry Float := .ofList [("metal", [⟨[⟨-0.0, 1 / 0⟩, ⟨2, 1⟩, ⟨0, -0.0⟩]⟩])]

/-- A pad whose only polygon has no points. -/
def hollow : Layout Float where
  name := "hollow"
  nodes := .ofSlots [.fresh ⟨"pad", .ofList [("metal", [⟨[]⟩])], []⟩]
  references := .ofSlots []

/-- The boxes of both groupings coincide, although they have different zeros. -/
theorem scattered_boxed : ∃ box : Box Float, scattered.box? = some box ∧ box.Tight scattered.points ∧
    (∀ united : Box Float, united.Unites scattered.cornered → box.Coincides united) ∧
    Option.Rel Box.Coincides scattered.box? gathered.box? ∧ scattered.box? ≠ gathered.box? ∧
    hollow.box (.toNode (.ofParts 1 1)) = .error .emptyGeometry := by
  obtain ⟨numbers, cornered, same, differ⟩ :
      (∀ point ∈ scattered.points, ¬ point.x.isNaN ∧ ¬ point.y.isNaN) ∧
        (¬ ∀ polygon ∈ scattered.values.flatten, polygon.points = []) ∧
        scattered.points = gathered.points.reverse ∧ scattered.box? ≠ gathered.box? := by
    decide +kernel
  have ordered : ∀ point ∈ scattered.points, point.IsOrdered := fun point member =>
    ⟨(numbers point member).1, (numbers point member).2⟩
  obtain ⟨none_iff, boxed, regrouped, missing⟩ := box_of_points ordered
  obtain ⟨box, found⟩ := Option.ne_none_iff_exists'.mp (mt none_iff.mp cornered)
  obtain ⟨tight, _, united⟩ := boxed box found
  refine ⟨box, found, tight, united, regrouped gathered fun point => ?_, differ, ?_⟩
  · rw [same, List.mem_reverse]
  · have computed : (hollow.flatten (.toNode (.ofParts 1 1))).map (·.geometry.points) = .ok [] := by
      decide +kernel
    exact (missing hollow _).mpr (map_eq_ok_iff.mp computed)

end Layout

end MaskLayout
