import MaskLayout.Arena.Slot

/-!
Stores that hand out a key for every value put in. Vacant places are filled again, the one vacated
last first, each in its next generation. Places are counted from one; no key with place zero finds
anything.
-/
namespace MaskLayout

structure Arena (kind : Kind) (α : Type) where
  slots : Array (Slot α)
  /-- The vacant places, counted from zero, in the order in which they are filled. -/
  free : List Nat
  vacant : ∀ position, position ∈ free ↔ ∃ slot, slots[position]? = some slot ∧ slot.value? = none
  nodup : free.Nodup

namespace Arena

variable {kind : Kind} {α : Type}

def empty : Arena kind α := ⟨#[], [], by simp, .nil⟩

instance : Inhabited (Arena kind α) := ⟨empty⟩

def slot? (arena : Arena kind α) (key : Key kind) : Option (Slot α) :=
  if key.index = 0 then none else arena.slots[key.index - 1]?

/-- The value that was stored under a key, unless it was removed. -/
def get? (arena : Arena kind α) (key : Key kind) : Option α :=
  match arena.slot? key with
  | some slot => if slot.version = key.version then slot.value? else none
  | none => none

def contains (arena : Arena kind α) (key : Key kind) : Bool := (arena.get? key).isSome

theorem free_lt (arena : Arena kind α) (position : Nat) (member : position ∈ arena.free) :
    position < arena.slots.size := by
  obtain ⟨slot, found, _⟩ := (arena.vacant position).mp member
  exact (Array.getElem?_eq_some_iff.mp found).1

/-- A value at a new place. -/
def append (arena : Arena kind α) (value : α) (none_free : arena.free = []) :
    Arena kind α where
  slots := arena.slots.push (.fresh value)
  free := []
  vacant position := by
    have vacant := arena.vacant position
    simp only [none_free, List.not_mem_nil, false_iff] at vacant
    simp only [List.not_mem_nil, false_iff]
    rintro ⟨slot, found, empty⟩
    rw [Array.getElem?_push] at found
    split at found
    · cases Option.some.inj found; simp [Slot.fresh] at empty
    · exact vacant ⟨slot, found, empty⟩
  nodup := .nil

/-- A value at a vacant place. -/
def refill (arena : Arena kind α) (value : α) {position : Nat} {rest : List Nat}
    (within : position < arena.slots.size) (free : arena.free = position :: rest) :
    Arena kind α where
  slots := arena.slots.set position ((arena.slots[position]).fill value) within
  free := rest
  vacant other := by
    have vacant := arena.vacant other
    have nodup := arena.nodup
    rw [free, List.nodup_cons] at nodup
    rw [free, List.mem_cons] at vacant
    rw [Array.getElem?_set]
    by_cases same : position = other
    · subst same
      simp [nodup.1, Slot.fill]
    · simp only [same, if_false]
      rw [← vacant]
      simp [Ne.symm same]
  nodup := (List.nodup_cons.mp (free ▸ arena.nodup)).2

/-- Stores a value and hands out its key. -/
def insert (arena : Arena kind α) (value : α) : Arena kind α × Key kind :=
  match free : arena.free with
  | [] => (arena.append value free, .ofParts (arena.slots.size + 1) 1)
  | position :: rest =>
    have within := arena.free_lt position (by simp [free])
    (arena.refill value within free, .ofParts (position + 1) arena.slots[position].version)

/-- A place without its value. -/
def vacate (arena : Arena kind α) {position : Nat} (within : position < arena.slots.size)
    (occupied : arena.slots[position].value?.isSome) : Arena kind α where
  slots := arena.slots.set position (arena.slots[position].vacate occupied) within
  free := position :: arena.free
  vacant other := by
    rw [List.mem_cons, Array.getElem?_set, arena.vacant]
    by_cases same : position = other
    · subst same
      simp [Slot.vacate]
    · simp [same, Ne.symm same]
  nodup := by
    refine List.nodup_cons.mpr ⟨fun member => ?_, arena.nodup⟩
    obtain ⟨slot, found, empty⟩ := (arena.vacant position).mp member
    rw [Array.getElem?_eq_getElem within] at found
    cases Option.some.inj found
    simp [empty] at occupied

/-- Takes out the value stored under a key. -/
def remove? (arena : Arena kind α) (key : Key kind) : Option (Arena kind α × α) :=
  if within : 0 < key.index ∧ key.index - 1 < arena.slots.size then
    have bound := within.2
    let slot := arena.slots[key.index - 1]
    match found : slot.value? with
    | some value =>
      if slot.version = key.version then
        some (arena.vacate within.2 (by simp [slot] at found; simp [found]), value)
      else none
    | none => none
  else none

/-- The stored values with their keys, by place. -/
def entries (arena : Arena kind α) : List (Key kind × α) :=
  arena.slots.toList.zipIdx.filterMap fun (slot, position) => slot.keyed? kind (position + 1)

def keys (arena : Arena kind α) : List (Key kind) := arena.entries.map (·.1)

/-- How many values are stored. -/
def count (arena : Arena kind α) : Nat := arena.slots.toList.countP (·.value?.isSome)

/-- The positions of the vacant places among some, the last one first. -/
def vacancies (slots : List (Slot α)) : List Nat :=
  ((List.range slots.length).filter fun position =>
    (slots[position]?.bind (·.value?)).isNone).reverse

/-- A store with given places, of which the last vacant one is filled first. -/
def ofSlots (slots : List (Slot α)) : Arena kind α where
  slots := slots.toArray
  free := vacancies slots
  vacant position := by
    simp only [vacancies, List.mem_reverse, List.mem_filter, List.mem_range, List.getElem?_toArray]
    constructor
    · rintro ⟨within, empty⟩
      exact ⟨slots[position], by simp [within], by simpa [within] using empty⟩
    · rintro ⟨slot, found, empty⟩
      exact ⟨(List.getElem?_eq_some_iff.mp found).1, by simp [found, empty]⟩
  nodup := List.pairwise_reverse.mpr ((List.nodup_range.filter _).imp Ne.symm)

end Arena

end MaskLayout
