import MaskLayout.Layout.Chain
import MaskLayout.Proofs.Outcome

namespace MaskLayout

variable {K : Type}

namespace Chain

variable (reference : Reference K) (links : List (Reference K)) (node : NodeKey) (limit : Option Nat)

/-- One link more reaches as far down as one link less below it. -/
theorem outermost_cons : outermost ⟨reference :: links, node⟩ (limit.map (· + 1)) =
    reference :: outermost ⟨links, node⟩ limit := by
  cases limit <;> rfl

theorem layerMap_cons : layerMap ⟨reference :: links, node⟩ (limit.map (· + 1)) =
    layerMap ⟨links, node⟩ limit >>= (·.compose reference.layerMap) := by
  simp only [layerMap, outermost_cons, List.reverse_cons, List.foldlM_append, List.foldlM_cons,
    List.foldlM_nil, bind_pure]

end Chain

namespace Layout

variable {layout : Layout K}

/-- The way down starts with the reference itself. -/
theorem follow_links {allowance : Nat} {reference : Reference K} {chain : Chain K}
    (followed : layout.follow allowance reference = .ok chain) :
    chain.links = reference :: chain.links.tail := by
  fun_induction layout.follow allowance reference generalizing chain with
  | case1 | case5 =>
    cases Except.ok.inj followed
    rfl
  | case2 | case3 | case4 => cases followed

/-- References to the same target lie on top of the same stack. -/
theorem follow_swap {reference other : Reference K} (same : other.target = reference.target)
    (allowance : Nat) : layout.follow allowance other =
      (layout.follow allowance reference).map fun chain => ⟨other :: chain.links.tail, chain.node⟩ := by
  rw [follow.eq_def, same]
  fun_cases layout.follow allowance reference with
  | case1 allowance key target => simp [target, Except.map]
  | case2 allowance key target error missing => simp [target, missing, Except.map]
  | case3 key target inner found => simp [target, found, Except.map]
  | case4 key target inner found allowance error failed => simp [target, found, failed, Except.map]
  | case5 key target inner found allowance chain followed => simp [target, found, followed, Except.map]

/-- The chain below a reference, which holds no link where it leads to a node directly. -/
def innerChain (layout : Layout K) (reference : Reference K) : Except LayoutError (Chain K) := do
  let chain ← layout.chain reference
  return ⟨chain.links.tail, chain.node⟩

theorem innerChain_swap {reference other : Reference K} (same : other.target = reference.target) :
    layout.innerChain other = layout.innerChain reference := by
  unfold innerChain Layout.chain
  rw [follow_swap same]
  cases layout.follow layout.references.count reference <;> rfl

/-- A reference comes before what it is stacked on. -/
theorem chain_eq (layout : Layout K) (reference : Reference K) : layout.chain reference =
    (layout.innerChain reference).map fun inner => ⟨reference :: inner.links, inner.node⟩ := by
  unfold innerChain
  cases followed : layout.chain reference with
  | error error => rfl
  | ok chain =>
    obtain ⟨links, node⟩ := chain
    have start : links = reference :: links.tail := follow_links followed
    exact congrArg (fun links => Except.ok (Chain.mk links node)) start

/-- The layer map of what a reference is stacked on, the identity where it leads to a node directly. -/
def innerLayerMap (layout : Layout K) (reference : Reference K) : Except LayoutError LayerMap := do
  (← layout.innerChain reference).layerMap none

/-- The map of a reference goes around the map of what it is stacked on. -/
theorem flatLayerMap_eq (layout : Layout K) (reference : Reference K) :
    layout.flatLayerMap reference none =
      layout.innerLayerMap reference >>= (·.compose reference.layerMap) := by
  unfold flatLayerMap innerLayerMap
  rw [chain_eq, bind_of_map, bind_assoc]
  exact bind_congr fun inner => Chain.layerMap_cons reference inner.links inner.node none

section Swap

variable {reference other : Reference K} (same : other.target = reference.target)

include same

theorem resolve_swap : layout.resolve other = layout.resolve reference := by
  unfold resolve
  rw [chain_eq, chain_eq, innerChain_swap same, bind_of_map, bind_of_map]

theorem innerLayerMap_swap : layout.innerLayerMap other = layout.innerLayerMap reference := by
  unfold innerLayerMap
  rw [innerChain_swap same]

end Swap

end Layout

end MaskLayout
