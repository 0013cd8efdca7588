import MaskLayout.Arena.Lemmas

namespace MaskLayout

private theorem or_one_of_even {version : UInt32} (even : ¬ version % 2 = 1) :
    version ||| 1 = version + 1 := by
  have parity : version.toNat % 2 = 0 := by
    have different : version.toNat % 2 ≠ 1 := fun same => even (UInt32.toNat_inj.mp (by simpa using same))
    omega
  apply UInt32.toNat_inj.mp
  have half : 2 ^ 1 * (version.toNat / 2) = version.toNat := by omega
  have joined := Nat.two_pow_add_eq_or_of_lt (show 1 < 2 ^ 1 by decide) (version.toNat / 2)
  have bound := version.toNat_lt
  rw [half] at joined
  simp only [UInt32.toNat_or, UInt32.toNat_add, UInt32.reduceToNat]
  omega

/-- A vacant place that is filled goes on by one step. -/
theorem Slot.fill_version {α : Type} {slot : Slot α} (empty : slot.value? = none) (value : α) :
    (slot.fill value).version = slot.version + 1 :=
  or_one_of_even (by simp [← slot.parity, empty])

private theorem Slot.vacate_version {α : Type} (slot : Slot α) (occupied : slot.value?.isSome) :
    (slot.vacate occupied).version = slot.version + 1 := rfl

private theorem version_succ {current past : UInt32} {steps : Nat}
    (moved : current = past + UInt32.ofNat steps) :
    current + 1 = past + UInt32.ofNat (steps + 1) := by
  rw [moved, UInt32.ofNat_add]
  exact UInt32.add_assoc _ _ _

namespace Arena

variable {kind : Kind} {α : Type}

/-- How often a place can be vacated before its generations come round again. -/
def lifespan : Nat := 0x80000000

/-- The place of a key has gone on since, by as many steps as so many removals allow. -/
def Outlived (arena : Arena kind α) (key : Key kind) (removals : Nat) : Prop :=
  ∃ slot steps, arena.slot? key = some slot ∧ 0 < steps ∧ steps ≤ 2 * removals ∧
    slot.version = key.version + UInt32.ofNat steps

theorem Outlived.mono {arena : Arena kind α} {key : Key kind} {removals more : Nat}
    (past : arena.Outlived key removals) (fewer : removals ≤ more) : arena.Outlived key more := by
  obtain ⟨slot, steps, here, positive, bound, moved⟩ := past
  exact ⟨slot, steps, here, positive, by omega, moved⟩

theorem Outlived.get?_eq_none {arena : Arena kind α} {key : Key kind} {removals : Nat}
    (past : arena.Outlived key removals) (few : removals < lifespan) : arena.get? key = none := by
  obtain ⟨slot, steps, here, positive, bound, moved⟩ := past
  have different : slot.version ≠ key.version := by
    intro same
    rw [same] at moved
    have values := congrArg UInt32.toNat moved
    have small := key.version.toNat_lt
    unfold lifespan at few
    simp only [UInt32.toNat_add, UInt32.toNat_ofNat'] at values
    omega
  simp [get?, here, different]

/-- Where nothing new was stored, the place of a key is as it was; else it was vacant before. -/
theorem slot?_insert (arena : Arena kind α) (value : α) {key : Key kind} {slot : Slot α}
    (here : arena.slot? key = some slot) :
    (arena.insert value).1.slot? key = some slot ∨
      slot.value? = none ∧ (arena.insert value).1.slot? key = some (slot.fill value) := by
  obtain ⟨positive, found⟩ := slot?_eq_some_iff.mp here
  have within := (Array.getElem?_eq_some_iff.mp found).1
  unfold insert
  split
  · left
    rw [slot?_eq_some_iff]
    exact ⟨positive, by simp [append, Array.getElem?_push, found, Nat.ne_of_lt within]⟩
  · rename_i position rest filled
    by_cases same : position = key.index - 1
    · right
      obtain ⟨vacant, other, empty⟩ := (arena.vacant position).mp (by simp [filled])
      subst same
      cases Option.some.inj (other.symm.trans found)
      refine ⟨empty, slot?_eq_some_iff.mpr ⟨positive, ?_⟩⟩
      have stored : arena.slots[key.index - 1] = slot := (Array.getElem?_eq_some_iff.mp found).2
      simp [refill, within, stored]
    · left
      rw [slot?_eq_some_iff]
      exact ⟨positive, by simp [refill, same, found]⟩

theorem Outlived.insert {arena : Arena kind α} {key : Key kind} {removals : Nat}
    (past : arena.Outlived key removals) (value : α) :
    (arena.insert value).1.Outlived key removals := by
  obtain ⟨slot, steps, here, positive, bound, moved⟩ := past
  rcases slot?_insert arena value here with same | ⟨empty, filled⟩
  · exact ⟨slot, steps, same, positive, bound, moved⟩
  · -- A vacant place is an odd number of steps away from a key, so there is room for one more.
    have even : ¬ slot.version % 2 = 1 := by simp [← slot.parity, empty]
    have odd : steps % 2 = 1 := by
      have first := congrArg UInt32.toNat key.odd
      have second : slot.version.toNat % 2 ≠ 1 := fun same => even (UInt32.toNat_inj.mp (by simpa using same))
      have third := congrArg UInt32.toNat moved
      simp only [UInt32.toNat_mod, UInt32.reduceToNat] at first
      simp only [UInt32.toNat_add, UInt32.toNat_ofNat'] at third
      omega
    refine ⟨slot.fill value, steps + 1, filled, by omega, by omega, ?_⟩
    rw [Slot.fill_version empty]
    exact version_succ moved

private theorem slot?_remove {arena rest : Arena kind α} {removed : Key kind} {value : α}
    (success : arena.remove? removed = some (rest, value)) {key : Key kind} {slot : Slot α}
    (here : arena.slot? key = some slot) :
    (key.index ≠ removed.index ∧ rest.slot? key = some slot) ∨
      (key.index = removed.index ∧ ∃ occupied, rest.slot? key = some (slot.vacate occupied)) := by
  obtain ⟨positive, found⟩ := slot?_eq_some_iff.mp here
  unfold remove? at success
  split at success
  · rename_i within
    simp only at success
    split at success
    · rename_i stored held
      split at success
      · obtain ⟨vacated, _⟩ := Prod.mk.inj (Option.some.inj success)
        subst vacated
        by_cases same : key.index = removed.index
        · right
          have stored : arena.slots[removed.index - 1]? = some slot := by simpa [same] using found
          have there : arena.slots[removed.index - 1] = slot := by
            simpa [within.2] using stored
          refine ⟨same, by rw [← there]; simp [held], ?_⟩
          rw [slot?_eq_some_iff]
          exact ⟨positive, by simp [vacate, same, within.2, there]⟩
        · left
          have different : removed.index - 1 ≠ key.index - 1 := by omega
          refine ⟨same, ?_⟩
          rw [slot?_eq_some_iff]
          exact ⟨positive, by simp [vacate, different, found]⟩
      · cases success
    · cases success
  · cases success

theorem Outlived.remove {arena rest : Arena kind α} {key removed : Key kind} {value : α}
    {removals : Nat} (past : arena.Outlived key removals)
    (success : arena.remove? removed = some (rest, value)) : rest.Outlived key (removals + 1) := by
  obtain ⟨slot, steps, here, positive, bound, moved⟩ := past
  rcases slot?_remove success here with ⟨_, same⟩ | ⟨_, occupied, vacated⟩
  · exact ⟨slot, steps, same, positive, by omega, moved⟩
  · refine ⟨slot.vacate occupied, steps + 1, vacated, by omega, by omega, ?_⟩
    rw [Slot.vacate_version]
    exact version_succ moved

theorem outlived_of_remove {arena rest : Arena kind α} {key : Key kind} {value : α}
    (success : arena.remove? key = some (rest, value)) : rest.Outlived key 1 := by
  obtain ⟨slot, here, current, _⟩ := get?_eq_some_iff.mp (get?_remove success key).1
  rcases slot?_remove success here with ⟨different, _⟩ | ⟨_, occupied, vacated⟩
  · exact absurd rfl different
  · exact ⟨slot.vacate occupied, 1, vacated, by omega, by omega, by
      rw [Slot.vacate_version, current]; rfl⟩

end Arena

end MaskLayout
