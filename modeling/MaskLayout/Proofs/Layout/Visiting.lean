import MaskLayout.Layout.Flatten
import MaskLayout.Proofs.Outcome

namespace MaskLayout.Layout

variable {K : Type} [Scalar K]

/-- What a placement leaves behind when it is entered: its children, and the geometry with its own. -/
def enter (layout : Layout K) (placement : Placement K) (geometry : LayerGeometry K) :
    Except LayoutError (List (Placement K) × LayerGeometry K) := do
  let node ← layout.node placement.node
  let added ← placement.deposit node geometry
  return (← layout.placementsBelow placement node, added)

variable {layout : Layout K} {placement : Placement K} {rest : List (Nat × Placement K)}
  {geometry : LayerGeometry K}

theorem enter_eq_ok_iff {children : List (Placement K)} {added : LayerGeometry K} :
    layout.enter placement geometry = .ok (children, added) ↔
      ∃ node, layout.node placement.node = .ok node ∧ placement.deposit node geometry = .ok added ∧
        layout.placementsBelow placement node = .ok children := by
  simp only [enter, bind_eq_ok_iff]
  constructor
  · rintro ⟨node, found, own, deposited, below, composed, same⟩
    cases Except.ok.inj same
    exact ⟨node, found, deposited, composed⟩
  · rintro ⟨node, found, deposited, composed⟩
    exact ⟨node, found, added, deposited, children, composed, rfl⟩

@[simp] theorem visit_nil : layout.visit [] geometry = .ok geometry := by
  unfold visit
  rfl

theorem visit_skip (discards : placement.layerMap = .discardAll) (depth : Nat) :
    layout.visit ((depth, placement) :: rest) geometry = layout.visit rest geometry := by
  rw [visit.eq_def]
  simp only [discards, ↓reduceIte]

theorem visit_endless (kept : placement.layerMap ≠ .discardAll) :
    layout.visit ((0, placement) :: rest) geometry = .error .endless := by
  rw [visit.eq_def]
  simp only [kept, ↓reduceIte]

theorem visit_enter (kept : placement.layerMap ≠ .discardAll) (depth : Nat) :
    layout.visit ((depth + 1, placement) :: rest) geometry = (do
      let (children, added) ← layout.enter placement geometry
      layout.visit (children.map (depth, ·) ++ rest) added) := by
  rw [visit.eq_def]
  simp only [kept, ↓reduceIte, enter]
  split
  · rename_i error missing
    rw [missing]
    rfl
  · rename_i node found
    split
    · rename_i error unknown
      simp [found, unknown, bind, Except.bind]
    · rename_i added deposited
      split
      · rename_i error misplaced
        simp [found, deposited, misplaced, bind, Except.bind]
      · rename_i children composed
        simp [found, deposited, composed, bind, Except.bind, pure, Except.pure]

/-- Induction along the rounds of a visit: something holds of the pending placements and the geometry
if it does whenever it holds of what the next round leaves behind. -/
theorem visit_induction (layout : Layout K)
    {holds : List (Nat × Placement K) → LayerGeometry K → Prop}
    (nil : ∀ geometry, holds [] geometry)
    (skip : ∀ depth placement rest geometry, placement.layerMap = .discardAll → holds rest geometry →
      holds ((depth, placement) :: rest) geometry)
    (endless : ∀ placement rest geometry, placement.layerMap ≠ .discardAll →
      holds ((0, placement) :: rest) geometry)
    (enter : ∀ depth placement rest geometry, placement.layerMap ≠ .discardAll →
      (∀ children added, layout.enter placement geometry = .ok (children, added) →
        holds (children.map (depth, ·) ++ rest) added) →
      holds ((depth + 1, placement) :: rest) geometry)
    (pending : List (Nat × Placement K)) (geometry : LayerGeometry K) : holds pending geometry := by
  fun_induction layout.visit pending geometry with
  | case1 geometry => exact nil geometry
  | case2 geometry depth placement rest discards ih => exact skip _ _ _ _ discards ih
  | case3 geometry placement rest kept => exact endless _ _ _ kept
  | case4 geometry placement rest kept depth error missing =>
    refine enter _ _ _ _ kept fun children added entered => ?_
    simp [Layout.enter, missing, bind, Except.bind] at entered
  | case5 geometry placement rest kept depth node found error unknown =>
    refine enter _ _ _ _ kept fun children added entered => ?_
    simp [Layout.enter, found, unknown, bind, Except.bind] at entered
  | case6 geometry placement rest kept depth node found after deposited error misplaced =>
    refine enter _ _ _ _ kept fun children added entered => ?_
    simp [Layout.enter, found, deposited, misplaced, bind, Except.bind] at entered
  | case7 geometry placement rest kept depth node found after deposited composed ih =>
    refine enter _ _ _ _ kept fun children added entered => ?_
    simp only [Layout.enter, found, deposited, composed, bind, Except.bind, pure, Except.pure,
      Except.ok.injEq, Prod.mk.injEq] at entered
    obtain ⟨rfl, rfl⟩ := entered
    exact ih

end MaskLayout.Layout
