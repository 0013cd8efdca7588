import MaskLayout.Arena.Key

/-! Places for values. The generation of a place counts how often it was filled and vacated. -/
namespace MaskLayout

/-- A place holds a value in its odd generations. -/
structure Slot (α : Type) where
  version : UInt32
  value? : Option α
  parity : value?.isSome ↔ version % 2 = 1

namespace Slot

variable {α : Type}

theorem even_succ_of_odd {version : UInt32} (odd : version % 2 = 1) : (version + 1) % 2 ≠ 1 := by
  have value := congrArg UInt32.toNat odd
  intro same
  have next := congrArg UInt32.toNat same
  simp only [UInt32.toNat_mod, UInt32.toNat_add, UInt32.reduceToNat] at value next
  omega

/-- A place that is filled for the first time. -/
def fresh (value : α) : Slot α := ⟨1, some value, by simp⟩

/-- The place filled again, in the next odd generation. -/
def fill (slot : Slot α) (value : α) : Slot α :=
  ⟨slot.version ||| 1, some value, by simp [Key.odd_or_one]⟩

/-- The place vacated; generations start over after the last one. -/
def vacate (slot : Slot α) (occupied : slot.value?.isSome) : Slot α :=
  ⟨slot.version + 1, none, by simp [even_succ_of_odd (slot.parity.mp occupied)]⟩

/-- A place in a given state, if generation and value agree on whether it is filled. -/
def ofParts? (version : UInt32) (value? : Option α) : Option (Slot α) :=
  if parity : value?.isSome ↔ version % 2 = 1 then some ⟨version, value?, parity⟩ else none

/-- The key of the value held at a place, if there is one. -/
def keyed? (kind : Kind) (slot : Slot α) (index : Nat) : Option (Key kind × α) :=
  match found : slot.value? with
  | some value => some (⟨index, slot.version, slot.parity.mp (by simp [found])⟩, value)
  | none => none

end Slot

end MaskLayout
