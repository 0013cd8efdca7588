import MaskLayout.Arena.Lemmas

namespace MaskLayout

private theorem Slot.keyed?_eq_some_iff {α : Type} {kind : Kind} {slot : Slot α} {index : Nat}
    {key : Key kind} {value : α} :
    slot.keyed? kind index = some (key, value) ↔
      slot.value? = some value ∧ key.index = index ∧ key.version = slot.version := by
  unfold Slot.keyed?
  split
  · rename_i stored held
    rw [Option.some.injEq, Prod.mk.injEq]
    constructor
    · intro listed
      obtain ⟨rfl, rfl⟩ := listed
      exact ⟨held, rfl, rfl⟩
    · intro listed
      obtain ⟨same, place, current⟩ := listed
      exact ⟨Key.eq_of_parts place.symm current.symm, Option.some.inj (held.symm.trans same)⟩
  · rename_i empty
    simp [empty]

namespace Arena

variable {kind : Kind} {α : Type}

theorem mem_entries_iff {arena : Arena kind α} {key : Key kind} {value : α} :
    (key, value) ∈ arena.entries ↔ arena.get? key = some value := by
  rw [entries, List.mem_filterMap, get?_eq_some_iff]
  constructor
  · intro listed
    obtain ⟨⟨slot, position⟩, member, entry⟩ := listed
    obtain ⟨held, place, current⟩ := Slot.keyed?_eq_some_iff.mp entry
    have found : arena.slots[position]? = some slot := by
      simpa using List.mem_zipIdx_iff_getElem?.mp member
    exact ⟨slot, slot?_eq_some_iff.mpr ⟨by omega, by simpa [place] using found⟩, current.symm, held⟩
  · intro stored
    obtain ⟨slot, here, current, held⟩ := stored
    obtain ⟨positive, found⟩ := slot?_eq_some_iff.mp here
    refine ⟨(slot, key.index - 1), List.mem_zipIdx_iff_getElem?.mpr (by simpa using found), ?_⟩
    exact Slot.keyed?_eq_some_iff.mpr ⟨held, by omega, current.symm⟩

theorem contains_iff {arena : Arena kind α} {key : Key kind} :
    arena.contains key ↔ ∃ value, arena.get? key = some value :=
  Option.isSome_iff_exists

theorem mem_keys_iff {arena : Arena kind α} {key : Key kind} :
    key ∈ arena.keys ↔ arena.contains key := by
  rw [keys, List.mem_map, contains_iff]
  constructor
  · intro listed
    obtain ⟨⟨_, value⟩, member, rfl⟩ := listed
    exact ⟨value, mem_entries_iff.mp member⟩
  · intro present
    obtain ⟨value, found⟩ := present
    exact ⟨(key, value), mem_entries_iff.mpr found, rfl⟩

/-- The keys are listed in the order of their places. -/
theorem nodup_keys (arena : Arena kind α) : arena.keys.Nodup := by
  have places : arena.slots.toList.zipIdx.Pairwise fun first second => first.2 < second.2 := by
    rw [← List.pairwise_map, List.zipIdx_map_snd]
    exact List.pairwise_lt_range'
  have listed : arena.entries.Pairwise fun first second => first.1.index < second.1.index := by
    refine places.filterMap _ fun first second before entry found other there => ?_
    rw [(Slot.keyed?_eq_some_iff.mp found).2.1, (Slot.keyed?_eq_some_iff.mp there).2.1]
    omega
  rw [keys, List.Nodup, List.pairwise_map]
  refine listed.imp fun before same => ?_
  rw [same] at before
  exact Nat.lt_irrefl _ before

theorem length_keys (arena : Arena kind α) : arena.keys.length = arena.count := by
  have filled (slot : Slot α) (position : Nat) :
      (slot.keyed? kind (position + 1)).isSome = slot.value?.isSome := by
    unfold Slot.keyed?
    split <;> simp [*]
  have listed : arena.slots.toList.zipIdx.map (·.1) = arena.slots.toList := List.zipIdx_map_fst 0 _
  calc arena.keys.length
      = arena.slots.toList.zipIdx.countP fun place =>
          (place.1.keyed? kind (place.2 + 1)).isSome := by
        rw [keys, List.length_map, entries, List.length_filterMap_eq_countP]
    _ = arena.slots.toList.zipIdx.countP fun place => place.1.value?.isSome := by
        simp only [filled]
    _ = (arena.slots.toList.zipIdx.map (·.1)).countP fun slot => slot.value?.isSome := by
        rw [List.countP_map]
        rfl
    _ = arena.count := by
        rw [listed, count]

/-- Keys of which none comes twice are no more than the values that they find. -/
theorem length_le_count {arena : Arena kind α} {keys : List (Key kind)} (distinct : keys.Nodup)
    (present : ∀ key ∈ keys, arena.contains key) : keys.length ≤ arena.count := by
  rw [← length_keys]
  exact distinct.length_le_of_subset fun key member => mem_keys_iff.mpr (present key member)

/-- Stores in which the same keys find something hold equally many values. -/
theorem count_eq_of_contains {first second : Arena kind α}
    (same : ∀ key, first.contains key = second.contains key) : first.count = second.count :=
  Nat.le_antisymm
    (length_keys first ▸ length_le_count first.nodup_keys fun key member =>
      same key ▸ mem_keys_iff.mp member)
    (length_keys second ▸ length_le_count second.nodup_keys fun key member =>
      same key ▸ mem_keys_iff.mp member)

/-- What holds of a new value and of all others holds of everything that is stored then. -/
theorem forall_insert {good : α → Prop} {arena : Arena kind α} {value : α} (new : good value)
    (old : ∀ key stored, arena.get? key = some stored → good stored) :
    ∀ key stored, (arena.insert value).1.get? key = some stored → good stored := by
  intro key stored found
  rw [get?_insert] at found
  split at found
  · cases found
    exact new
  · exact old key stored found

theorem forall_remove {good : α → Prop} {arena rest : Arena kind α} {removed : Key kind} {value : α}
    (success : arena.remove? removed = some (rest, value))
    (old : ∀ key stored, arena.get? key = some stored → good stored) :
    ∀ key stored, rest.get? key = some stored → good stored := by
  intro key stored found
  rw [(get?_remove success key).2] at found
  split at found
  · cases found
  · exact old key stored found


theorem count_insert (arena : Arena kind α) (value : α) :
    (arena.insert value).1.count = arena.count + 1 := by
  have fresh : (arena.insert value).2 ∉ arena.keys := by
    rw [mem_keys_iff, contains, arena.get?_new value]
    exact Bool.false_ne_true
  have more : (arena.insert value).1.keys.Perm ((arena.insert value).2 :: arena.keys) := by
    refine (List.perm_ext_iff_of_nodup (nodup_keys _)
      (List.nodup_cons.mpr ⟨fresh, nodup_keys _⟩)).mpr fun key => ?_
    rw [List.mem_cons, mem_keys_iff, mem_keys_iff, contains, contains, get?_insert]
    by_cases same : key = (arena.insert value).2 <;> simp [same]
  rw [← length_keys, ← length_keys, more.length_eq, List.length_cons]

theorem count_remove {arena rest : Arena kind α} {key : Key kind} {value : α}
    (removed : arena.remove? key = some (rest, value)) : rest.count + 1 = arena.count := by
  have looked := get?_remove removed
  have gone : key ∉ rest.keys := by
    rw [mem_keys_iff, contains, (looked key).2, if_pos rfl]
    exact Bool.false_ne_true
  have fewer : arena.keys.Perm (key :: rest.keys) := by
    refine (List.perm_ext_iff_of_nodup (nodup_keys _)
      (List.nodup_cons.mpr ⟨gone, nodup_keys _⟩)).mpr fun other => ?_
    rw [List.mem_cons, mem_keys_iff, mem_keys_iff, contains, contains, (looked other).2]
    by_cases same : other = key
    · simp [same, (looked key).1]
    · simp [same]
  rw [← length_keys, ← length_keys, fewer.length_eq, List.length_cons]

end Arena

end MaskLayout
