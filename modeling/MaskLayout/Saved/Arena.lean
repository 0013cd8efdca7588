import MaskLayout.Arena.Basic
import MaskLayout.Json.Decoder

/-!
The saved form of keys and stores. A store is written as the list of its places, after one that is
never filled and stands for place zero.
-/
namespace MaskLayout

open Json

namespace Key

variable {kind : Kind}

def toJson (key : Key kind) : Json :=
  .object [("idx", ofNat key.index), ("version", ofNat key.version.toNat)]

/-- The place that no value can have. -/
def nowhere : Nat := UInt32.size - 1

def ofReading? (reading : Reading) : Except Defect (Key kind) := do
  let (index, version, _) ← reading.record?
    [.head "idx" Reading.word?, .tail (.head "version" Reading.word?)] false (none, none, ())
  let index := (← required index).toNat
  let version ← required version
  return ofParts index (if index = nowhere then 1 else version)

end Key

namespace Slot

variable {α : Type}

def toJson (value : α → Json) (slot : Slot α) : Json :=
  .object [
    ("value", (slot.value?.map value).getD .null),
    ("version", ofNat slot.version.toNat)]

/-- A place with its value, which has to be there exactly in an odd generation. -/
def ofReading? (value? : Reading → Except Defect α) (reading : Reading) :
    Except Defect (Slot α) := do
  let (value?, version, _) ← reading.record?
    [.head "value" (Reading.option? value?), .tail (.head "version" Reading.word?)] false
    (none, none, ())
  required (ofParts? (← required version) value?.join)

end Slot

namespace Arena

variable {kind : Kind} {α : Type}

/-- Place zero. -/
def origin : Json := .object [("value", .null), ("version", ofNat 0)]

def toJson (value : α → Json) (arena : Arena kind α) : Json :=
  .array (origin :: arena.slots.toList.map (Slot.toJson value))

/-- Place zero has to be there and vacant; its generation does not matter. -/
def ofReading? (value? : Reading → Except Defect α) (reading : Reading) :
    Except Defect (Arena kind α) := do
  match ← reading.list? (Slot.ofReading? value?) with
  | first :: slots => if first.value?.isSome then .error .unfit else return ofSlots slots
  | [] => .error .unfit

end Arena

end MaskLayout
