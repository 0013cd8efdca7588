import MaskLayout.Proofs.Saved.Sessions

/-!
Keys over a whole session. Which vacant place is filled next is not the same after a layout was
reloaded, but the generations of the places are, and they keep apart all keys that were ever handed out.
-/
namespace MaskLayout.Layout

variable {layout after : Layout Float}

/-- What is found under a key is found there until it is taken out. -/
theorem Effect.get?_node {operation : Operation} (effect : layout.Effect operation after)
    {key : NodeKey} {node : Node Float} (found : layout.nodes.get? key = some node)
    (other : operation ≠ .edit (.removeNode key)) : after.nodes.get? key = some node := by
  cases effect with
  | addNode added =>
    obtain ⟨_, rfl, _⟩ := addNode_eq_ok added
    exact Arena.get?_insert_of_get? found _
  | addReference added =>
    obtain ⟨_, rfl, _⟩ := addReference_eq_ok added
    exact found
  | @removeNode taken _ _ success =>
    obtain ⟨rest, gone, rfl⟩ := removeNode?_eq_some success
    have different : key ≠ taken := fun same => other (by rw [same])
    exact ((Arena.get?_remove gone key).2.trans (if_neg different)).trans found
  | reload => exact (layout.nodes.get?_reloaded key).trans found
  | nothing => exact found

private theorem Effect.get?_reference {operation : Operation} (effect : layout.Effect operation after)
    {key : ReferenceKey} {reference : Reference Float}
    (found : layout.references.get? key = some reference) :
    after.references.get? key = some reference := by
  cases effect with
  | addNode added =>
    obtain ⟨_, rfl, _⟩ := addNode_eq_ok added
    exact found
  | addReference added =>
    obtain ⟨_, rfl, _⟩ := addReference_eq_ok added
    exact Arena.get?_insert_of_get? found _
  | removeNode success =>
    obtain ⟨rest, gone, rfl⟩ := removeNode?_eq_some success
    exact found
  | reload => exact (layout.references.get?_reloaded key).trans found
  | nothing => exact found

/-- A node that is taken out is past then. -/
theorem Effect.outlived_of_removal {key : NodeKey}
    (effect : layout.Effect (.edit (.removeNode key)) after) {removals : Nat}
    (accounted : layout.contains (.node key) ∨ layout.Outlived removals (.node key)) :
    after.Outlived (removals + layout.removed (.edit (.removeNode key))) (.node key) := by
  rcases accounted with present | past
  · cases effect with
    | removeNode success =>
      rw [removed_of_removeNode? success]
      obtain ⟨rest, taken, rfl⟩ := removeNode?_eq_some success
      exact (Arena.outlived_of_remove taken).mono (Nat.le_add_left _ _)
    | nothing _ unremoved =>
      obtain ⟨node, found⟩ := contains_node_iff.mp present
      cases taken : layout.removeNode? key with
      | none =>
        have absent := Arena.remove?_eq_none_iff.mp (Option.map_eq_none_iff.mp taken)
        cases found.symm.trans absent
      | some result => cases (removed_of_removeNode? taken).symm.trans unremoved
  · exact effect.outlived past

/-- What a key finds that has been handed out, at the end of a session that goes on after that. -/
theorem Keeps.node {removals : Nat} {handed : List Target} (keeps : layout.Keeps removals handed)
    {operations : List Operation} (sustained : layout.Sustained removals operations) {key : NodeKey}
    {node : Node Float} (member : .node key ∈ handed) (found : layout.nodes.get? key = some node) :
    (.edit (.removeNode key) ∉ operations → (layout.session operations).node key = .ok node) ∧
      (.edit (.removeNode key) ∈ operations →
        (layout.session operations).node key = .error (.staleKey .node)) := by
  constructor
  · intro untaken
    refine node_eq_ok_iff.mpr (keeps.induct (fun layout _ => layout.nodes.get? key = some node)
      (fun operation listed effect found => effect.get?_node found fun same => ?_) sustained found)
    exact untaken (same ▸ listed)
  · intro taken
    obtain ⟨first, rest, rfl⟩ := List.append_of_mem taken
    obtain ⟨before, behind⟩ := sustained.split
    have there := keeps.session before
    obtain ⟨effect, next⟩ := there.operate behind
    have gone := effect.outlived_of_removal
      (there.accounted (.node key) (List.mem_append_left _ member))
    have past := next.induct (fun layout removals => layout.Outlived removals (.node key))
      (fun _ _ effect => effect.outlived) behind.next gone
    have absent := Arena.Outlived.get?_eq_none past behind.next.few
    rw [session_append, session_cons, Layout.node, absent]

private theorem Keeps.reference {removals : Nat} {handed : List Target}
    (keeps : layout.Keeps removals handed)
    {operations : List Operation} (sustained : layout.Sustained removals operations)
    {key : ReferenceKey} {reference : Reference Float}
    (found : layout.references.get? key = some reference) :
    (layout.session operations).reference key = .ok reference :=
  reference_eq_ok_iff.mpr (keeps.induct (fun layout _ => layout.references.get? key = some reference)
    (fun _ _ effect => effect.get?_reference) sustained found)

/-- Keys never alias, however a layout is edited and reloaded from its own text, as long as the
generations of a place cannot have come round. No key is handed out twice. The key of a node finds
that node, as it was put in, until it is taken out, and nothing from then on; the key of a reference
always finds that reference. As many nodes are there as were put in and not taken out. -/
theorem keys_never_alias (name : String) (operations : List Operation)
    (finite : ∀ operation ∈ operations, operation.IsFinite)
    (addressable : ∀ moment ∈ (empty name).history operations, moment.1.IsAddressable)
    (few : (empty name).removals operations < Arena.lifespan) :
    ((empty name).handedOut operations).Nodup ∧
    (∀ earlier draft later after key, operations = earlier ++ .edit (.addNode draft) :: later →
      ((empty name).session earlier).addNode draft = .ok (after, key) →
      (.edit (.removeNode key) ∉ later →
        ((empty name).session operations).node key = .ok draft.node) ∧
      (.edit (.removeNode key) ∈ later →
        ((empty name).session operations).node key = .error (.staleKey .node))) ∧
    (∀ earlier reference later after key,
      operations = earlier ++ .edit (.addReference reference) :: later →
      ((empty name).session earlier).addReference reference = .ok (after, key) →
      ((empty name).session operations).reference key = .ok reference) ∧
    ((empty name).session operations).nodes.count + (empty name).removals operations =
      ((empty name).handedOut operations).countP (·.kind = .node) := by
  have keeps := keeps_empty name
  have sustained : (empty name).Sustained 0 operations := ⟨finite, addressable, by omega⟩
  have last := keeps.session sustained
  refine ⟨last.distinct, ?_, ?_, by simpa using last.count⟩
  · rintro earlier draft later after key rfl stored
    obtain ⟨before, behind⟩ := sustained.split
    obtain ⟨_, next⟩ := (keeps.session before).operate behind
    rw [session_append, session_cons]
    refine next.node behind.next ?_ ?_
    · rw [added?_of_addNode stored]
      simp
    · rw [operate_of_addNode stored]
      obtain ⟨_, rfl, rfl⟩ := addNode_eq_ok stored
      rw [Arena.get?_insert, if_pos rfl]
  · rintro earlier reference later after key rfl stored
    obtain ⟨before, behind⟩ := sustained.split
    obtain ⟨_, next⟩ := (keeps.session before).operate behind
    rw [session_append, session_cons]
    refine next.reference behind.next ?_
    rw [operate_of_addReference stored]
    obtain ⟨_, rfl, rfl⟩ := addReference_eq_ok stored
    rw [Arena.get?_insert, if_pos rfl]

/-- Two nodes are put in and taken out again, the second one first. -/
def vacated : List (Edit Float) :=
  [.addNode (.empty "first"), .addNode (.empty "second"), .removeNode (.ofParts 2 1),
    .removeNode (.ofParts 1 1)]

/-- After that the second place is filled first, since the layout has been reloaded. The old key of
that place takes nothing out. -/
def reopened : List Operation :=
  vacated.map .edit ++ [.reload, .edit (.addNode (.empty "third")), .edit (.removeNode (.ofParts 2 1))]

theorem reopened_apart :
    ((empty "").handedOut reopened).Nodup ∧
    ((empty "").session reopened).node (.ofParts 1 1) = .error (.staleKey .node) ∧
    ((empty "").session reopened).node (.ofParts 2 3) = .ok ⟨"third", .empty, []⟩ := by
  have sound : ((empty "").run vacated : Layout Float).Sound 2 := (Origin.empty "").sound.run _ (by decide)
  have valid : ((empty "").run vacated : Layout Float).reloaded.validate = .ok () := rfl
  have state : ((empty "").session (vacated.map .edit)).operate .reload =
      ((empty "").run vacated).reloaded := by
    rw [session_map_edit, operate, reload_eq sound (by decide) (by decide), valid]
  have addressable : ∀ moment ∈ (empty "").history reopened, moment.1.IsAddressable := by
    rw [reopened, history_append]
    simp only [history, state]
    decide
  have few : (empty "").removals reopened < Arena.lifespan :=
    (removals_le_length _ reopened).trans_lt (by decide)
  obtain ⟨distinct, nodes, _⟩ := keys_never_alias "" reopened (by decide) addressable few
  have stored : ((empty "").session (vacated.map .edit ++ [.reload])).addNode (.empty "third") =
      .ok (((empty "").run vacated).reloaded.edit (.addNode (.empty "third")), .ofParts 2 3) := by
    rw [session_append, session_cons, state]
    rfl
  have listed : .edit (.removeNode (.ofParts 1 1)) ∈ reopened.drop 1 := by simp [reopened, vacated]
  have order : reopened = vacated.map .edit ++ [.reload] ++ .edit (.addNode (.empty "third")) ::
      [.edit (.removeNode (.ofParts 2 1))] := by simp [reopened]
  have other : (.ofParts 2 3 : NodeKey) ≠ .ofParts 2 1 := by decide
  exact ⟨distinct, (nodes [] (.empty "first") _ _ _ rfl rfl).2 listed,
    (nodes _ (.empty "third") _ _ _ order stored).1 (by simpa using other)⟩

end MaskLayout.Layout
