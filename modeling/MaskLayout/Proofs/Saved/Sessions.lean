import MaskLayout.Proofs.Saved.Loading

namespace MaskLayout.Layout

inductive Operation where
  | edit (change : Edit Float)
  /-- The layout is replaced by what is loaded from its own text. -/
  | reload

namespace Operation

/-- Whether all numbers are finite that an operation puts in. -/
def IsFinite : Operation → Prop
  | .edit (.addNode draft) => draft.node.IsFinite
  | .edit (.addReference reference) => reference.IsFinite
  | .edit (.removeNode _) => True
  | .reload => True

instance : DecidablePred IsFinite
  | .edit (.addNode draft) => inferInstanceAs (Decidable draft.node.IsFinite)
  | .edit (.addReference reference) => inferInstanceAs (Decidable reference.IsFinite)
  | .edit (.removeNode _) => inferInstanceAs (Decidable True)
  | .reload => inferInstanceAs (Decidable True)

end Operation

/-- The layout as it is loaded from its own text, or as it was if that fails. -/
def reload (layout : Layout Float) : Layout Float := (load layout.save).toOption.getD layout

/-- The layout after an operation. One that fails changes nothing. -/
def operate (layout : Layout Float) : Operation → Layout Float
  | .edit change => layout.edit change
  | .reload => layout.reload

def session (layout : Layout Float) (operations : List Operation) : Layout Float :=
  operations.foldl operate layout

/-- The entry whose key an operation hands out. -/
def added? (layout : Layout Float) : Operation → Option Target
  | .edit (.addNode draft) => (layout.addNode draft).toOption.map fun result => .node result.2
  | .edit (.addReference reference) =>
    (layout.addReference reference).toOption.map fun result => .reference result.2
  | .edit (.removeNode _) => none
  | .reload => none

/-- How many nodes an operation takes out. -/
def removed (layout : Layout Float) : Operation → Nat
  | .edit (.removeNode key) => if (layout.removeNode? key).isSome then 1 else 0
  | .edit (.addNode _) => 0
  | .edit (.addReference _) => 0
  | .reload => 0

/-- The operations of a session, each with the layout that it meets. -/
def history (layout : Layout Float) : List Operation → List (Layout Float × Operation)
  | [] => []
  | operation :: rest => (layout, operation) :: history (layout.operate operation) rest

/-- The entries whose keys are handed out in a session, in this order. -/
def handedOut (layout : Layout Float) : List Operation → List Target
  | [] => []
  | operation :: rest =>
    (layout.added? operation).toList ++ handedOut (layout.operate operation) rest

/-- How many nodes are taken out in a session. -/
def removals (layout : Layout Float) : List Operation → Nat
  | [] => 0
  | operation :: rest => layout.removed operation + removals (layout.operate operation) rest

variable {layout after : Layout Float}

@[simp] theorem session_nil (layout : Layout Float) : layout.session [] = layout := rfl

@[simp] theorem session_cons (layout : Layout Float) (operation : Operation) (rest : List Operation) :
    layout.session (operation :: rest) = (layout.operate operation).session rest := rfl

theorem session_map_edit (layout : Layout Float) (edits : List (Edit Float)) :
    layout.session (edits.map .edit) = layout.run edits := List.foldl_map

theorem session_append (layout : Layout Float) (first second : List Operation) :
    layout.session (first ++ second) = (layout.session first).session second :=
  List.foldl_append

theorem history_append (layout : Layout Float) (first second : List Operation) :
    layout.history (first ++ second) =
      layout.history first ++ (layout.session first).history second := by
  induction first generalizing layout with
  | nil => rfl
  | cons operation rest ih => simp only [List.cons_append, history, ih, session_cons]

@[simp] theorem removals_nil (layout : Layout Float) : layout.removals [] = 0 := rfl

@[simp] theorem removals_cons (layout : Layout Float) (operation : Operation) (rest : List Operation) :
    layout.removals (operation :: rest) =
      layout.removed operation + (layout.operate operation).removals rest := rfl

private theorem removals_append (layout : Layout Float) (first second : List Operation) :
    layout.removals (first ++ second) =
      layout.removals first + (layout.session first).removals second := by
  induction first generalizing layout with
  | nil => simp
  | cons operation rest ih => simp only [List.cons_append, removals_cons, ih, session_cons, Nat.add_assoc]

/-- A session takes out no more nodes than it has operations. -/
theorem removals_le_length (layout : Layout Float) (operations : List Operation) :
    layout.removals operations ≤ operations.length := by
  induction operations generalizing layout with
  | nil => exact Nat.le_refl 0
  | cons operation rest ih =>
    have later := ih (layout.operate operation)
    have one : layout.removed operation ≤ 1 := by
      unfold removed
      split
      · split <;> decide
      all_goals decide
    rw [removals_cons, List.length_cons]
    omega

@[simp] theorem handedOut_nil (layout : Layout Float) : layout.handedOut [] = [] := rfl

@[simp] theorem handedOut_cons (layout : Layout Float) (operation : Operation) (rest : List Operation) :
    layout.handedOut (operation :: rest) =
      (layout.added? operation).toList ++ (layout.operate operation).handedOut rest := rfl

/-- All that an operation can come to. -/
inductive Effect (layout : Layout Float) : Operation → Layout Float → Prop where
  | addNode {draft : NodeDraft Float} {after : Layout Float} {key : NodeKey}
      (added : layout.addNode draft = .ok (after, key)) : Effect layout (.edit (.addNode draft)) after
  | addReference {reference : Reference Float} {after : Layout Float} {key : ReferenceKey}
      (added : layout.addReference reference = .ok (after, key)) :
      Effect layout (.edit (.addReference reference)) after
  | removeNode {key : NodeKey} {after : Layout Float} {node : Node Float}
      (success : layout.removeNode? key = some (after, node)) :
      Effect layout (.edit (.removeNode key)) after
  | reload : Effect layout .reload layout.reloaded
  | nothing {operation : Operation} (unadded : layout.added? operation = none)
      (unremoved : layout.removed operation = 0) : Effect layout operation layout

/-- A layout without circles is taken up again unless something is missing in it. -/
theorem reload_eq {removals : Nat} (sound : layout.Sound removals) (finite : layout.IsFinite)
    (addressable : layout.IsAddressable) :
    layout.reload =
      match layout.reloaded.validate with
      | .ok () => layout.reloaded
      | .error _ => layout := by
  have loaded := load_save_eq finite fun _ _ step => sound.isReachable addressable step
  rw [reload, loaded]
  cases layout.reloaded.validate <;> rfl

theorem operate_of_addNode {draft : NodeDraft Float} {key : NodeKey}
    (success : layout.addNode draft = .ok (after, key)) :
    layout.operate (.edit (.addNode draft)) = after := by
  simp [operate, edit, success]

theorem operate_of_addReference {reference : Reference Float} {key : ReferenceKey}
    (success : layout.addReference reference = .ok (after, key)) :
    layout.operate (.edit (.addReference reference)) = after := by
  simp [operate, edit, success]

private theorem effect_operate {removals : Nat} (sound : layout.Sound removals)
    (finite : layout.IsFinite)
    (addressable : layout.IsAddressable) (operation : Operation) :
    layout.Effect operation (layout.operate operation) := by
  cases operation with
  | edit change =>
    cases change with
    | addNode draft =>
      cases added : layout.addNode draft with
      | error error =>
        have same : layout.operate (.edit (.addNode draft)) = layout := by simp [operate, edit, added]
        rw [same]
        exact .nothing (by simp [added?, added, Except.toOption]) rfl
      | ok result =>
        rw [operate_of_addNode added]
        exact .addNode added
    | addReference reference =>
      cases added : layout.addReference reference with
      | error error =>
        have same : layout.operate (.edit (.addReference reference)) = layout := by
          simp [operate, edit, added]
        rw [same]
        exact .nothing (by simp [added?, added, Except.toOption]) rfl
      | ok result =>
        rw [operate_of_addReference added]
        exact .addReference added
    | removeNode key =>
      cases removed : layout.removeNode? key with
      | none =>
        have same : layout.operate (.edit (.removeNode key)) = layout := by
          simp [operate, edit, removed]
        rw [same]
        exact .nothing rfl (by simp [Layout.removed, removed])
      | some result => simpa [operate, edit, removed] using Effect.removeNode removed
  | reload =>
    rw [operate, reload_eq sound finite addressable]
    split
    · exact .reload
    · exact .nothing rfl rfl

theorem added?_of_addNode {draft : NodeDraft Float} {key : NodeKey}
    (success : layout.addNode draft = .ok (after, key)) :
    layout.added? (.edit (.addNode draft)) = some (.node key) := by
  simp [added?, success, Except.toOption]

private theorem added?_of_addReference {reference : Reference Float} {key : ReferenceKey}
    (success : layout.addReference reference = .ok (after, key)) :
    layout.added? (.edit (.addReference reference)) = some (.reference key) := by
  simp [added?, success, Except.toOption]

theorem removed_of_removeNode? {key : NodeKey} {node : Node Float}
    (success : layout.removeNode? key = some (after, node)) :
    layout.removed (.edit (.removeNode key)) = 1 := by
  simp [removed, success]

private theorem isFinite_iff {layout : Layout Float} : layout.IsFinite ↔
    (∀ key node, layout.nodes.get? key = some node → node.IsFinite) ∧
      ∀ key reference, layout.references.get? key = some reference → reference.IsFinite := by
  simp only [IsFinite, Prod.forall, Arena.mem_entries_iff]

private theorem Effect.isFinite {operation : Operation} (effect : layout.Effect operation after)
    (finite : layout.IsFinite) (new : operation.IsFinite) : after.IsFinite := by
  rw [isFinite_iff] at finite ⊢
  obtain ⟨nodes, references⟩ := finite
  cases effect with
  | addNode added =>
    obtain ⟨_, rfl, _⟩ := addNode_eq_ok added
    exact ⟨Arena.forall_insert new nodes, references⟩
  | addReference added =>
    obtain ⟨_, rfl, _⟩ := addReference_eq_ok added
    exact ⟨nodes, Arena.forall_insert new references⟩
  | removeNode success =>
    obtain ⟨rest, taken, rfl⟩ := removeNode?_eq_some success
    exact ⟨Arena.forall_remove taken nodes, references⟩
  | reload => exact ⟨by simpa [reloaded] using nodes, by simpa [reloaded] using references⟩
  | nothing => exact ⟨nodes, references⟩

private theorem outlived_reloaded {removals : Nat} {target : Target}
    (past : layout.Outlived removals target) : layout.reloaded.Outlived removals target := by
  cases target with
  | node key => simpa [Outlived, Arena.Outlived, reloaded] using past
  | reference key => exact past

private theorem Effect.sound {operation : Operation} (effect : layout.Effect operation after)
    {removals : Nat}
    (few : removals < Arena.lifespan) (sound : layout.Sound removals) :
    after.Sound (removals + layout.removed operation) := by
  cases effect with
  | addNode added =>
    exact sound.extends few (extends_addNode added) fun _ => outlived_addNode added
  | addReference added =>
    exact sound.extends few (extends_addReference added) fun _ => outlived_addReference added
  | removeNode success =>
    rw [removed_of_removeNode? success]
    exact sound.remove success
  | reload =>
    refine ⟨acyclic_reloaded sound.acyclic, fun entry target step => ?_⟩
    rw [contains_reloaded]
    exact (sound.accounted entry target (leads_reloaded.mp step)).imp_right outlived_reloaded
  | nothing => exact sound.mono (Nat.le_add_right _ _)

/-- What is past stays past. -/
theorem Effect.outlived {operation : Operation} (effect : layout.Effect operation after)
    {removals : Nat} {target : Target} (past : layout.Outlived removals target) :
    after.Outlived (removals + layout.removed operation) target := by
  cases effect with
  | addNode added => exact outlived_addNode added past
  | addReference added => exact outlived_addReference added past
  | removeNode success =>
    rw [removed_of_removeNode? success]
    obtain ⟨rest, taken, rfl⟩ := removeNode?_eq_some success
    cases target with
    | node other => exact Arena.Outlived.remove past taken
    | reference other => exact past
  | reload => exact outlived_reloaded past
  | nothing => exact past.mono (Nat.le_add_right _ _)

private theorem Effect.accounted {operation : Operation} (effect : layout.Effect operation after)
    {removals : Nat} {target : Target}
    (accounted : layout.contains target ∨ layout.Outlived removals target) :
    after.contains target ∨ after.Outlived (removals + layout.removed operation) target := by
  cases effect with
  | addNode added => exact accounted.imp ((extends_addNode added).kept target) (outlived_addNode added)
  | addReference added =>
    exact accounted.imp ((extends_addReference added).kept target) (outlived_addReference added)
  | removeNode success =>
    rw [removed_of_removeNode? success]
    exact accounted_of_removeNode? success accounted
  | reload =>
    rw [contains_reloaded]
    exact accounted.imp_right outlived_reloaded
  | nothing => exact accounted.imp_right fun past => past.mono (Nat.le_add_right _ _)

/-- What is handed out was not there before, and is there then. -/
theorem Effect.added {operation : Operation} (effect : layout.Effect operation after)
    {target : Target} (added : layout.added? operation = some target) :
    ¬ layout.contains target ∧ after.contains target := by
  cases effect with
  | addNode stored =>
    cases (added?_of_addNode stored).symm.trans added
    exact ⟨(extends_addNode stored).absent, (extends_addNode stored).present⟩
  | addReference stored =>
    cases (added?_of_addReference stored).symm.trans added
    exact ⟨(extends_addReference stored).absent, (extends_addReference stored).present⟩
  | removeNode success => cases added
  | reload => cases added
  | nothing unadded => cases unadded.symm.trans added

private theorem Effect.count {operation : Operation} (effect : layout.Effect operation after) :
    after.nodes.count + layout.removed operation =
      layout.nodes.count + (layout.added? operation).toList.countP (·.kind = .node) := by
  cases effect with
  | addNode added =>
    rw [added?_of_addNode added]
    obtain ⟨_, rfl, _⟩ := addNode_eq_ok added
    exact layout.nodes.count_insert _
  | addReference added =>
    rw [added?_of_addReference added]
    obtain ⟨_, rfl, _⟩ := addReference_eq_ok added
    rfl
  | removeNode success =>
    rw [removed_of_removeNode? success]
    obtain ⟨rest, taken, rfl⟩ := removeNode?_eq_some success
    exact Arena.count_remove taken
  | reload => exact layout.nodes.count_reloaded
  | nothing unadded unremoved =>
    rw [unadded, unremoved]
    rfl

/-- How a layout stands to the keys that have been handed out, after so many removals. -/
structure Keeps (layout : Layout Float) (removals : Nat) (handed : List Target) : Prop where
  sound : layout.Sound removals
  finite : layout.IsFinite
  accounted : ∀ target ∈ handed, layout.contains target ∨ layout.Outlived removals target
  distinct : handed.Nodup
  count : layout.nodes.count + removals = handed.countP (·.kind = .node)

theorem keeps_empty (name : String) : Keeps (.empty name) 0 [] where
  sound := (Origin.empty name).sound
  finite := isFinite_iff.mpr ⟨by simp [empty], by simp [empty]⟩
  accounted := by simp
  distinct := .nil
  count := rfl

private theorem Keeps.effect {removals : Nat} {handed : List Target}
    (keeps : layout.Keeps removals handed)
    {operation : Operation} (effect : layout.Effect operation after) (finite : operation.IsFinite)
    (few : removals + layout.removed operation < Arena.lifespan) :
    after.Keeps (removals + layout.removed operation)
      (handed ++ (layout.added? operation).toList) where
  sound := effect.sound (by omega) keeps.sound
  finite := effect.isFinite keeps.finite finite
  accounted target member := by
    rcases List.mem_append.mp member with old | new
    · exact effect.accounted (keeps.accounted target old)
    · exact .inl (effect.added (Option.mem_toList.mp new)).2
  distinct := by
    have once : (layout.added? operation).toList.Nodup := by
      cases layout.added? operation <;> simp
    refine List.nodup_append.mpr ⟨keeps.distinct, once, fun old member new handed same => ?_⟩
    obtain ⟨absent, present⟩ := effect.added (Option.mem_toList.mp handed)
    rcases keeps.accounted old member with there | past
    · exact absent (same ▸ there)
    · exact (effect.outlived past).not_contains few (same ▸ present)
  count := by
    have step := effect.count
    have before := keeps.count
    rw [List.countP_append]
    omega

/-- A session whose numbers are finite, in a store that does not run out of places or of
generations. -/
structure Sustained (layout : Layout Float) (removals : Nat) (operations : List Operation) : Prop where
  finite : ∀ operation ∈ operations, operation.IsFinite
  addressable : ∀ moment ∈ layout.history operations, moment.1.IsAddressable
  few : removals + layout.removals operations < Arena.lifespan

theorem Sustained.next {removals : Nat} {operation : Operation} {rest : List Operation}
    (sustained : layout.Sustained removals (operation :: rest)) :
    (layout.operate operation).Sustained (removals + layout.removed operation) rest where
  finite := (List.forall_mem_cons.mp sustained.finite).2
  addressable := (List.forall_mem_cons.mp sustained.addressable).2
  few := by
    have few := sustained.few
    rw [removals_cons] at few
    omega

theorem Sustained.split {removals : Nat} {first second : List Operation}
    (sustained : layout.Sustained removals (first ++ second)) :
    layout.Sustained removals first ∧
      (layout.session first).Sustained (removals + layout.removals first) second := by
  obtain ⟨finite, addressable, few⟩ := sustained
  rw [List.forall_mem_append] at finite
  rw [history_append, List.forall_mem_append] at addressable
  rw [removals_append] at few
  exact ⟨⟨finite.1, addressable.1, by omega⟩, ⟨finite.2, addressable.2, by omega⟩⟩

/-- The first operation of a sustained session has one of the effects, and keeps what is kept. -/
theorem Keeps.operate {removals : Nat} {handed : List Target} (keeps : layout.Keeps removals handed)
    {operation : Operation} {rest : List Operation}
    (sustained : layout.Sustained removals (operation :: rest)) :
    layout.Effect operation (layout.operate operation) ∧
      (layout.operate operation).Keeps (removals + layout.removed operation)
        (handed ++ (layout.added? operation).toList) := by
  have few := sustained.next.few
  have addressable := (List.forall_mem_cons.mp sustained.addressable).1
  have effect := effect_operate keeps.sound keeps.finite addressable operation
  exact ⟨effect, keeps.effect effect (List.forall_mem_cons.mp sustained.finite).1 (by omega)⟩

/-- What every effect preserves holds at the end of a session. -/
theorem Keeps.induct (holds : Layout Float → Nat → Prop) {operations : List Operation}
    (step : ∀ {before after : Layout Float} {removals : Nat}, ∀ operation ∈ operations,
      before.Effect operation after → holds before removals →
      holds after (removals + before.removed operation))
    {removals : Nat} {handed : List Target} (keeps : layout.Keeps removals handed)
    (sustained : layout.Sustained removals operations) (start : holds layout removals) :
    holds (layout.session operations) (removals + layout.removals operations) := by
  induction operations generalizing layout removals handed with
  | nil => exact start
  | cons operation rest ih =>
    obtain ⟨effect, next⟩ := keeps.operate sustained
    have first := step operation List.mem_cons_self effect start
    have last := ih (fun other member => step other (List.mem_cons_of_mem _ member)) next
      sustained.next first
    rwa [removals_cons, ← Nat.add_assoc]

theorem Keeps.session {operations : List Operation} {removals : Nat} {handed : List Target}
    (keeps : layout.Keeps removals handed) (sustained : layout.Sustained removals operations) :
    (layout.session operations).Keeps (removals + layout.removals operations)
      (handed ++ layout.handedOut operations) := by
  induction operations generalizing layout removals handed with
  | nil => simpa using keeps
  | cons operation rest ih =>
    have last := ih (keeps.operate sustained).2 sustained.next
    rwa [handedOut_cons, ← List.append_assoc, removals_cons, ← Nat.add_assoc]

end MaskLayout.Layout
