import MaskLayout.Arena.Basic

/-!
What storing and removing do to look-ups. A new key finds its value, a removed key finds nothing, and
every other key finds what it found before.
-/
namespace MaskLayout

namespace Key

variable {kind : Kind}

theorem eq_of_parts {a b : Key kind} (index : a.index = b.index) (version : a.version = b.version) :
    a = b := by
  cases a
  cases b
  cases index
  cases version
  rfl

/-- A key is made of its own parts. -/
theorem ofParts_parts (key : Key kind) : ofParts key.index key.version = key := by
  refine eq_of_parts (by rfl) (UInt32.toNat_inj.mp ?_)
  have odd := congrArg UInt32.toNat key.odd
  simp only [UInt32.toNat_mod, UInt32.reduceToNat] at odd
  simp only [ofParts, UInt32.toNat_or]
  apply Nat.eq_of_testBit_eq
  intro place
  rw [Nat.testBit_or]
  cases place with
  | zero => simp [Nat.testBit_zero, odd]
  | succ place => simp [Nat.testBit_succ]

end Key

namespace Arena

variable {kind : Kind} {α : Type}

@[simp] theorem get?_empty (key : Key kind) : (empty : Arena kind α).get? key = none := by
  simp [get?, slot?, empty]

theorem slot?_eq_some_iff {arena : Arena kind α} {key : Key kind} {slot : Slot α} :
    arena.slot? key = some slot ↔ key.index ≠ 0 ∧ arena.slots[key.index - 1]? = some slot := by
  simp [slot?]

theorem get?_eq_some_iff {arena : Arena kind α} {key : Key kind} {value : α} :
    arena.get? key = some value ↔
      ∃ slot, arena.slot? key = some slot ∧ slot.version = key.version ∧ slot.value? = some value := by
  unfold get?
  cases arena.slot? key with
  | none => simp
  | some slot => by_cases same : slot.version = key.version <;> simp [same]

/-- Places other than the one that changes look the same. -/
theorem get?_congr {before after : Arena kind α} {key : Key kind}
    (same : after.slot? key = before.slot? key) : after.get? key = before.get? key := by
  simp [get?, same]

theorem get?_append (arena : Arena kind α) (value : α) (filled : arena.free = []) (key : Key kind) :
    (arena.append value filled).get? key =
      if key = .ofParts (arena.slots.size + 1) 1 then some value else arena.get? key := by
  by_cases zero : key.index = 0
  · have other : key ≠ .ofParts (arena.slots.size + 1) 1 := by
      intro same
      simp [same, Key.ofParts] at zero
    simp [get?, slot?, zero, other]
  · by_cases last : key.index = arena.slots.size + 1
    · have absent : arena.get? key = none := by simp [get?, slot?, last]
      have found : (arena.append value filled).slot? key = some (.fresh value) := by
        simp [slot?, append, last]
      rw [absent]
      simp only [get?, found, Slot.fresh]
      by_cases first : (1 : UInt32) = key.version
      · rw [if_pos first, if_pos (Key.eq_of_parts last (first.symm.trans rfl))]
      · rw [if_neg first, if_neg]
        intro same
        exact first (by rw [same]; rfl)
    · have other : key ≠ .ofParts (arena.slots.size + 1) 1 := by
        intro same
        exact last (by rw [same]; rfl)
      rw [if_neg other]
      apply get?_congr
      have different : key.index - 1 ≠ arena.slots.size := by omega
      simp [slot?, append, zero, Array.getElem?_push, different]

theorem get?_refill (arena : Arena kind α) (value : α) {position : Nat} {rest : List Nat}
    (within : position < arena.slots.size) (free : arena.free = position :: rest) (key : Key kind) :
    (arena.refill value within free).get? key =
      if key = .ofParts (position + 1) arena.slots[position].version then some value
      else arena.get? key := by
  by_cases here : key.index = position + 1
  · obtain ⟨slot, found, vacant⟩ := (arena.vacant position).mp (by simp [free])
    have absent : arena.get? key = none := by
      simp [get?, slot?, here, found, vacant]
    have filled : (arena.refill value within free).slot? key =
        some (arena.slots[position].fill value) := by
      simp [slot?, refill, here, within]
    rw [absent]
    simp only [get?, filled, Slot.fill]
    by_cases current : arena.slots[position].version ||| 1 = key.version
    · rw [if_pos current, if_pos (Key.eq_of_parts here (current.symm.trans rfl))]
    · rw [if_neg current, if_neg]
      intro same
      exact current (by rw [same]; rfl)
  · have other : key ≠ .ofParts (position + 1) arena.slots[position].version := by
      intro same
      exact here (by rw [same]; rfl)
    rw [if_neg other]
    apply get?_congr
    by_cases zero : key.index = 0
    · simp [slot?, zero]
    · have different : position ≠ key.index - 1 := by omega
      simp [slot?, refill, zero, different]

/-- Storing changes what the new key finds and nothing else. -/
theorem get?_insert (arena : Arena kind α) (value : α) (key : Key kind) :
    (arena.insert value).1.get? key =
      if key = (arena.insert value).2 then some value else arena.get? key := by
  unfold insert
  split
  · rename_i filled
    exact arena.get?_append value filled key
  · rename_i position rest filled
    exact arena.get?_refill value (arena.free_lt position (by simp [filled])) filled key

/-- The key of a new value found nothing before. -/
theorem get?_new (arena : Arena kind α) (value : α) : arena.get? (arena.insert value).2 = none := by
  unfold insert
  split
  · simp [get?, slot?, Key.ofParts]
  · rename_i position rest filled
    obtain ⟨slot, found, empty⟩ := (arena.vacant position).mp (by simp [filled])
    simp [get?, slot?, Key.ofParts, found, empty]

/-- What a key finds it still finds when something is stored. -/
theorem get?_insert_of_get? {arena : Arena kind α} {key : Key kind} {stored : α}
    (found : arena.get? key = some stored) (value : α) :
    (arena.insert value).1.get? key = some stored := by
  rw [get?_insert, if_neg]
  · exact found
  · intro same
    rw [same, get?_new] at found
    cases found

theorem get?_vacate (arena : Arena kind α) {position : Nat} (within : position < arena.slots.size)
    (occupied : arena.slots[position].value?.isSome) (key : Key kind) :
    (arena.vacate within occupied).get? key =
      if key.index = position + 1 then none else arena.get? key := by
  by_cases here : key.index = position + 1
  · simp [get?, slot?, vacate, Slot.vacate, here, within]
  · rw [if_neg here]
    apply get?_congr
    by_cases zero : key.index = 0
    · simp [slot?, zero]
    · have different : position ≠ key.index - 1 := by omega
      simp [slot?, vacate, zero, different]

/-- Of one place, only the key of its own generation finds anything. -/
theorem get?_eq_none_of_index {arena : Arena kind α} {key other : Key kind} {value : α}
    (found : arena.get? key = some value) (place : other.index = key.index)
    (different : other ≠ key) : arena.get? other = none := by
  obtain ⟨slot, here, current, _⟩ := get?_eq_some_iff.mp found
  have there : arena.slot? other = some slot := by rw [← here]; simp [slot?, place]
  simp only [get?, there]
  rw [if_neg]
  intro same
  exact different (Key.eq_of_parts place (same.symm.trans current))

/-- Removing takes away what the key finds and nothing else. -/
theorem get?_remove {arena rest : Arena kind α} {key : Key kind} {value : α}
    (removed : arena.remove? key = some (rest, value)) (other : Key kind) :
    arena.get? key = some value ∧
      rest.get? other = if other = key then none else arena.get? other := by
  unfold remove? at removed
  split at removed
  · rename_i within
    simp only at removed
    split at removed
    · rename_i stored held
      split at removed
      · rename_i current
        obtain ⟨vacated, same⟩ := Prod.mk.inj (Option.some.inj removed)
        subst same
        have found : arena.get? key = some stored := by
          refine get?_eq_some_iff.mpr ⟨_, slot?_eq_some_iff.mpr ⟨by omega, ?_⟩, current, held⟩
          simp [within.2]
        refine ⟨found, ?_⟩
        rw [← vacated, get?_vacate]
        have place : key.index - 1 + 1 = key.index := by omega
        rw [place]
        by_cases same : other = key
        · simp [same]
        · rw [if_neg same]
          by_cases index : other.index = key.index
          · rw [if_pos index, get?_eq_none_of_index found index same]
          · rw [if_neg index]
      · exact nomatch removed
    · exact nomatch removed
  · exact nomatch removed

/-- A key that finds nothing has nothing to remove. -/
theorem remove?_eq_none_iff {arena : Arena kind α} {key : Key kind} :
    arena.remove? key = none ↔ arena.get? key = none := by
  constructor
  · intro kept
    cases found : arena.get? key with
    | none => rfl
    | some value =>
      obtain ⟨slot, here, current, held⟩ := get?_eq_some_iff.mp found
      obtain ⟨positive, there⟩ := slot?_eq_some_iff.mp here
      obtain ⟨within, same⟩ := Array.getElem?_eq_some_iff.mp there
      unfold remove? at kept
      rw [dif_pos ⟨Nat.pos_of_ne_zero positive, within⟩] at kept
      simp only at kept
      split at kept
      · rw [if_pos (same ▸ current)] at kept
        exact nomatch kept
      · rename_i empty
        rw [same, held] at empty
        exact nomatch empty
  · intro absent
    cases removed : arena.remove? key with
    | none => rfl
    | some result =>
      have found := (get?_remove removed key).1
      rw [absent] at found
      exact nomatch found

end Arena

end MaskLayout
