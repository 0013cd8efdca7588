import MaskLayout.Proofs.Cif.Motion
import MaskLayout.Proofs.Layout.Runs
import MaskLayout.Proofs.Layout.Termination

/-!
A reference that is stacked on a stored one. The walk down its chain goes through the chain of the
stored reference, and so each question about it is answered by the answer for the stored one: one
reference more is stacked, its layer map goes around theirs, and its transform applies after theirs.
-/
namespace MaskLayout.Layout

variable {K : Type} {layout : Layout K}

private theorem follow_node {reference : Reference K} {node : NodeKey}
    (target : reference.target = .node node)
    (allowance : Nat) : layout.follow allowance reference = .ok ⟨[reference], node⟩ := by
  unfold follow
  simp only [target]

private theorem follow_stacked {reference inner : Reference K} {key : ReferenceKey}
    (target : reference.target = .reference key) (found : layout.reference key = .ok inner)
    (allowance : Nat) : layout.follow (allowance + 1) reference =
      (layout.follow allowance inner).map fun chain => ⟨reference :: chain.links, chain.node⟩ := by
  rw [follow.eq_def]
  simp only [target, found]
  cases layout.follow allowance inner <;> rfl

/-- A walk that has come to an end comes to the same end with more allowance. -/
theorem follow_of_ended {fewer more : Nat} (enough : fewer ≤ more) {reference : Reference K}
    (ended : layout.follow fewer reference ≠ .error .endless) :
    layout.follow more reference = layout.follow fewer reference := by
  fun_induction layout.follow fewer reference generalizing more with
  | case1 fewer reference key target => exact follow_node target more
  | case2 fewer reference key target error missing =>
    unfold follow
    simp only [target, missing]
  | case3 reference key target inner found => exact absurd rfl ended
  | case4 reference key target inner found fewer error failed ih =>
    obtain ⟨left, rfl⟩ : ∃ left, more = left + 1 := ⟨more - 1, by omega⟩
    rw [follow_stacked target found, ih (Nat.le_of_succ_le_succ enough) (failed ▸ ended), failed]
    rfl
  | case5 reference key target inner found fewer chain followed ih =>
    obtain ⟨left, rfl⟩ : ∃ left, more = left + 1 := ⟨more - 1, by omega⟩
    rw [follow_stacked target found, ih (Nat.le_of_succ_le_succ enough) (by simp [followed]), followed]
    rfl

/-- The chain of a stacked reference is the chain of the one below, and the reference before it. -/
theorem chain_of_stacked (acyclic : layout.Acyclic) {reference inner : Reference K} {key : ReferenceKey}
    (target : reference.target = .reference key) (found : layout.reference key = .ok inner) :
    layout.chain reference =
      (layout.chain inner).map fun chain => ⟨reference :: chain.links, chain.node⟩ := by
  have way := (Passed.start layout (.reference key)).next acyclic (reference_eq_ok_iff.mp found)
  obtain ⟨left, room⟩ : ∃ left, layout.references.count = 1 + left :=
    Nat.exists_eq_add_of_le way.length_le
  -- The reference below is in the store, and so one less of the others can still be met.
  have ended : layout.follow left inner ≠ .error .endless := by
    intro endless
    have answers := (follow_ends acyclic way room.symm []).1
    rw [endless] at answers
    exact answers
  have below : layout.chain inner = layout.follow left inner :=
    follow_of_ended (by omega) ended
  rw [below, chain, room, Nat.add_comm]
  exact follow_stacked target found left

private theorem reference_eq_error {key : ReferenceKey} {error : LayoutError}
    (missing : layout.reference key = .error error) :
    error = .staleKey .reference ∧ ¬ layout.contains (.reference key) := by
  unfold Layout.reference at missing
  split at missing
  · cases missing
  · rename_i absent
    refine ⟨(Except.error.inj missing).symm, fun present => ?_⟩
    obtain ⟨stored, found⟩ := contains_reference_iff.mp present
    cases absent.symm.trans found

/-- A walk from a stored reference fails only where a stored reference has a target that is no longer
there, or at its allowance. -/
theorem follow_eq_error {allowance : Nat} {reference : Reference K} {key : ReferenceKey}
    {error : LayoutError} (stored : layout.reference key = .ok reference)
    (failed : layout.follow allowance reference = .error error) :
    error = .endless ∨ error = .staleKey .reference ∧ ∃ upper lost,
      layout.Leads (.reference upper) (.reference lost) ∧ ¬ layout.contains (.reference lost) := by
  fun_induction layout.follow allowance reference generalizing key with
  | case1 | case5 => cases failed
  | case2 allowance reference lower target error missing =>
    cases Except.error.inj failed
    obtain ⟨stale, absent⟩ := reference_eq_error missing
    exact .inr ⟨stale, key, lower, target ▸ .stack (reference_eq_ok_iff.mp stored), absent⟩
  | case3 => exact .inl (Except.error.inj failed).symm
  | case4 reference lower target inner found allowance error followed ih =>
    cases Except.error.inj failed
    exact ih found followed

private theorem chain_eq_error (acyclic : layout.Acyclic) {reference : Reference K} {key : ReferenceKey}
    {error : LayoutError} (stored : layout.reference key = .ok reference)
    (failed : layout.chain reference = .error error) :
    error = .staleKey .reference ∧ ∃ upper lost,
      layout.Leads (.reference upper) (.reference lost) ∧ ¬ layout.contains (.reference lost) := by
  refine (follow_eq_error stored failed).resolve_left fun endless => ?_
  have answers := (chain_ends acyclic reference).1
  rw [failed, endless] at answers
  exact answers

/-- The references from one down to a node, the outermost one first. -/
inductive Stands (layout : Layout K) : Reference K → List (Reference K) → NodeKey → Prop where
  | base {reference : Reference K} {node : NodeKey} (target : reference.target = .node node) :
      Stands layout reference [reference] node
  | stacked {reference inner : Reference K} {key : ReferenceKey} {links : List (Reference K)}
      {node : NodeKey} (target : reference.target = .reference key)
      (found : layout.reference key = .ok inner) (below : Stands layout inner links node) :
      Stands layout reference (reference :: links) node

private theorem stands_of_follow {allowance : Nat} {reference : Reference K} {chain : Chain K}
    (followed : layout.follow allowance reference = .ok chain) :
    layout.Stands reference chain.links chain.node := by
  fun_induction layout.follow allowance reference generalizing chain with
  | case1 allowance reference node target =>
    cases Except.ok.inj followed
    exact .base target
  | case2 | case3 | case4 => cases followed
  | case5 reference key target inner found allowance chain' below ih =>
    cases Except.ok.inj followed
    exact .stacked target found (ih below)

/-- The walk finds what stands below a reference. -/
theorem chain_eq_ok_iff (acyclic : layout.Acyclic) {reference : Reference K} {links : List (Reference K)}
    {node : NodeKey} : layout.chain reference = .ok ⟨links, node⟩ ↔ layout.Stands reference links node := by
  refine ⟨stands_of_follow, fun stands => ?_⟩
  induction stands with
  | base target => exact follow_node target _
  | stacked target found below ih =>
    rw [chain_of_stacked acyclic target found, ih]
    rfl

section Stacked

variable (acyclic : layout.Acyclic) {reference inner : Reference K} {key : ReferenceKey}
  (target : reference.target = .reference key) (found : layout.reference key = .ok inner)

include acyclic target found

private theorem depth_of_stacked : layout.depth reference = (layout.depth inner).map (· + 1) := by
  unfold depth
  rw [chain_of_stacked acyclic target found, bind_of_map, map_of_bind]
  rfl

private theorem resolve_of_stacked : layout.resolve reference = layout.resolve inner := by
  unfold resolve
  rw [chain_of_stacked acyclic target found, bind_of_map]

private theorem flatLayerMap_of_stacked (limit : Option Nat) :
    layout.flatLayerMap reference (limit.map (· + 1)) =
      layout.flatLayerMap inner limit >>= (·.compose reference.layerMap) := by
  unfold flatLayerMap
  rw [chain_of_stacked acyclic target found, bind_of_map, bind_assoc]
  exact bind_congr fun chain => Chain.layerMap_cons reference chain.links chain.node limit

private theorem flatTransform_of_stacked [Scalar K] [Scalar.IsExact K] (limit : Option Nat) :
    layout.flatTransform reference (limit.map (· + 1)) =
      (layout.flatTransform inner limit).map reference.transform.compose := by
  unfold flatTransform
  rw [chain_of_stacked acyclic target found, bind_of_map, map_of_bind]
  exact bind_congr fun chain =>
    congrArg Except.ok (Chain.transform_cons reference chain.links chain.node limit)

end Stacked

private theorem depth_eq_ok_iff {reference : Reference K} {depth : Nat} :
    layout.depth reference = .ok depth ↔
    ∃ chain, layout.chain reference = .ok chain ∧ chain.links.length = depth := by
  refine bind_eq_ok_iff.trans (exists_congr fun chain => and_congr_right fun _ => ?_)
  exact ⟨Except.ok.inj, congrArg Except.ok⟩

private theorem depth_eq_error {reference : Reference K} {error : LayoutError}
    (failed : layout.depth reference = .error error) : layout.chain reference = .error error := by
  unfold depth at failed
  cases followed : layout.chain reference with
  | ok chain =>
    rw [followed, ok_bind] at failed
    cases failed
  | error other =>
    rw [followed, error_bind] at failed
    exact congrArg Except.error (Except.error.inj failed)

/-- In a layout that is edited no stored reference loses the reference that it is stacked on. -/
theorem Sound.exists_depth {removals : Nat} (sound : layout.Sound removals) {reference : Reference K}
    {key : ReferenceKey} (stored : layout.reference key = .ok reference) :
    ∃ depth, layout.depth reference = .ok depth := by
  cases followed : layout.chain reference with
  | ok chain => exact ⟨_, depth_eq_ok_iff.mpr ⟨chain, followed, rfl⟩⟩
  | error error =>
    obtain ⟨_, upper, lost, step, absent⟩ := chain_eq_error sound.acyclic stored followed
    exact absurd ((sound.accounted _ _ step).resolve_right id) absent

section Targets

variable {reference : Reference K} {chain : Chain K} (followed : layout.chain reference = .ok chain)

include followed

/-- Targets are counted along the chain. -/
theorem targetAt_within {before : Nat} (inside : before < chain.links.length) :
    layout.targetAt reference (before + 1) = .ok chain.links[before].target := by
  rw [targetAt, followed, ok_bind]
  simp only [List.getElem?_eq_getElem inside]
  rfl

private theorem targetAt_beyond {depth : Nat} (outside : depth = 0 ∨ chain.links.length < depth) :
    layout.targetAt reference depth = .error (.invalidDepth depth chain.links.length) := by
  rw [targetAt, followed, ok_bind]
  cases depth with
  | zero => rfl
  | succ before =>
    have beyond : chain.links.length ≤ before := by omega
    simp only [List.getElem?_eq_none beyond]

end Targets

/-- The questions about a reference, answered from the one that it is stacked on. -/
structure OnTop (layout : Layout K) (reference : Reference K) (key : ReferenceKey)
    (inner : Reference K) : Prop where
  depth : layout.depth reference = (layout.depth inner).map (· + 1)
  resolve : layout.resolve reference = layout.resolve inner
  /-- The first target is the reference below, and the others are those that it has itself. -/
  first : ∀ depth, layout.depth inner = .ok depth → layout.targetAt reference 1 = .ok (.reference key)
  further : ∀ depth, layout.depth inner = .ok depth → ∀ below, 1 ≤ below → below ≤ depth →
    layout.targetAt reference (below + 1) = layout.targetAt inner below ∧
      ∃ target, layout.targetAt inner below = .ok target
  outside : ∀ depth, layout.depth inner = .ok depth → ∀ other, other = 0 ∨ depth + 1 < other →
    layout.targetAt reference other = .error (.invalidDepth other (depth + 1))
  /-- A layout that was built by edits has all these depths. -/
  deep : ∀ removals, layout.Sound removals → ∃ depth, layout.depth inner = .ok depth
  /-- There is no depth only where the target of a stored reference is gone. -/
  lost : ∀ error, layout.depth inner = .error error →
    (error = .staleKey .reference ∧ ∃ upper lost,
      layout.Leads (.reference upper) (.reference lost) ∧ ¬ layout.contains (.reference lost)) ∧
    ∀ depth, layout.targetAt reference depth = .error error
  /-- So many maps of the reference below, or all of them, and the map of the reference around. -/
  layerMap : ∀ limit, layout.flatLayerMap reference (limit.map (· + 1)) =
    layout.flatLayerMap inner limit >>= (·.compose reference.layerMap)

private theorem onTop (acyclic : layout.Acyclic) {reference inner : Reference K} {key : ReferenceKey}
    (target : reference.target = .reference key) (found : layout.reference key = .ok inner) :
    layout.OnTop reference key inner := by
  have around := chain_of_stacked acyclic target found
  have followed {depth : Nat} (known : layout.depth inner = .ok depth) :
      ∃ chain, layout.chain inner = .ok chain ∧ chain.links.length = depth ∧
        layout.chain reference = .ok ⟨reference :: chain.links, chain.node⟩ := by
    obtain ⟨chain, below, length⟩ := depth_eq_ok_iff.mp known
    exact ⟨chain, below, length, by rw [around, below]; rfl⟩
  exact {
    depth := depth_of_stacked acyclic target found
    resolve := resolve_of_stacked acyclic target found
    layerMap := flatLayerMap_of_stacked acyclic target found
    deep := fun removals sound => sound.exists_depth found
    first := by
      intro depth known
      obtain ⟨chain, _, _, whole⟩ := followed known
      rw [← target]
      exact targetAt_within whole (Nat.succ_pos chain.links.length)
    further := by
      intro depth known below positive within
      obtain ⟨chain, lower, rfl, whole⟩ := followed known
      obtain ⟨before, rfl⟩ : ∃ before, below = before + 1 := ⟨below - 1, by omega⟩
      have inner := targetAt_within lower within
      exact ⟨(targetAt_within whole (Nat.succ_lt_succ within)).trans inner.symm, _, inner⟩
    outside := by
      intro depth known other beyond
      obtain ⟨chain, _, rfl, whole⟩ := followed known
      exact targetAt_beyond whole beyond
    lost := by
      intro error failed
      have below := depth_eq_error failed
      refine ⟨chain_eq_error acyclic found below, fun depth => ?_⟩
      rw [targetAt, around, below]
      rfl }

/-- In exact arithmetic a composed transform moves a point as the references of the stack do one by
one, the innermost one first. -/
theorem Stands.apply [Scalar K] [Scalar.IsExact K] (acyclic : layout.Acyclic) {reference : Reference K}
    {links : List (Reference K)} {node : NodeKey} (stands : layout.Stands reference links node) :
    ∃ transform, layout.flatTransform reference none = .ok transform ∧ ∀ point,
      transform.apply point = links.foldr (fun link point => link.transform.apply point) point := by
  induction stands with
  | @base reference node target =>
    refine ⟨reference.transform, ?_, fun point => rfl⟩
    rw [flatTransform, (chain_eq_ok_iff acyclic).mpr (.base target), ok_bind]
    exact congrArg Except.ok (Transform.identity_compose reference.transform)
  | @stacked reference inner key links node target found below ih =>
    obtain ⟨transform, composed, moves⟩ := ih
    refine ⟨reference.transform.compose transform, ?_, fun point => ?_⟩
    · have whole := flatTransform_of_stacked acyclic target found none
      rw [composed] at whole
      exact whole
    · rw [Transform.apply_compose, moves, List.foldr_cons]

/-- A reference on top of a stored one answers as the stored one does, with itself on top: it is deeper
by one, its map goes around theirs and, in exact arithmetic, its transform applies after theirs. -/
theorem stacked_answers [Scalar K] (acyclic : layout.Acyclic) {reference inner : Reference K}
    {key : ReferenceKey} (target : reference.target = .reference key)
    (found : layout.reference key = .ok inner) :
    layout.OnTop reference key inner ∧ ∀ [Scalar.IsExact K],
      (∀ limit, layout.flatTransform reference (limit.map (· + 1)) =
        (layout.flatTransform inner limit).map reference.transform.compose) ∧
      ∀ links node, layout.Stands reference links node →
        ∃ transform, layout.flatTransform reference none = .ok transform ∧ ∀ point,
          transform.apply point = links.foldr (fun link point => link.transform.apply point) point := by
  refine ⟨onTop acyclic target found, ?_⟩
  intro _
  exact ⟨flatTransform_of_stacked acyclic target found, fun links node stands => stands.apply acyclic⟩

/-- A pad under two stored references, the outer one of which pushes what the inner one stretches. -/
def pile : Layout (Exact Cif.axial) where
  name := "pile"
  nodes := .ofSlots [.fresh ⟨"pad", .empty, []⟩]
  references := .ofSlots [
    .fresh ⟨.node (.ofParts 1 1), .scale (1 + 1) 1, .ofList [("m", some "metal"), ("tmp", none)]⟩,
    .fresh ⟨.reference (.ofParts 1 1), .translate 1 0, .rename "metal" "top"⟩]

/-- A quarter turn on top of the pile. -/
def crown : Reference (Exact Cif.axial) := ⟨.reference (.ofParts 2 1), Cif.turn, .rename "top" "9"⟩

theorem crown_answers : ∃ inner transform, pile.OnTop crown (.ofParts 2 1) inner ∧
    pile.depth crown = .ok 3 ∧ pile.targetAt crown 2 = .ok (.reference (.ofParts 1 1)) ∧
    pile.flatLayerMap crown none = .ok (.ofList [("m", some "9"), ("tmp", none)]) ∧
    pile.flatTransform crown none = .ok transform ∧ transform.apply ⟨1, 1⟩ = ⟨-1, 1 + 1 + 1⟩ := by
  have acyclic : pile.Acyclic := acyclic_of_grounded (grounded_of_validate rfl)
  obtain ⟨inner, found⟩ : ∃ inner, pile.reference (.ofParts 2 1) = .ok inner := ⟨_, rfl⟩
  obtain ⟨answers, moves⟩ := stacked_answers acyclic (rfl : crown.target = .reference (.ofParts 2 1)) found
  obtain ⟨chain, followed⟩ : ∃ chain, pile.chain crown = .ok chain := ⟨_, rfl⟩
  obtain ⟨transform, composed, moved⟩ :=
    moves.2 chain.links chain.node ((chain_eq_ok_iff acyclic).mp followed)
  cases found
  cases followed
  refine ⟨_, transform, answers, answers.depth.trans rfl, ?_, ?_, composed, ?_⟩
  · exact (answers.further 2 rfl 1 (by decide) (by decide)).1.trans rfl
  · exact (answers.layerMap none).trans (by decide +kernel)
  · rw [moved]
    decide +kernel

end MaskLayout.Layout
