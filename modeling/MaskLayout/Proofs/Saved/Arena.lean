import MaskLayout.Arena.Lemmas
import MaskLayout.Proofs.Json.Restoring
import MaskLayout.Saved.Arena

namespace MaskLayout

open Json

variable {kind : Kind} {α : Type}

/-- A key of a place that a store can have is loaded as it was. -/
theorem Key.restores {key : Key kind} (reachable : key.index < nowhere) :
    Restores Key.ofReading? key.toJson key := by
  have small : key.index < UInt32.size := by
    unfold nowhere at reachable
    omega
  have index := restores_word small
  have version := restores_word (UInt32.toNat_lt_size key.version)
  refine ⟨.object (by simp [index.regular, version.regular]), ?_⟩
  have place : (UInt32.ofNat key.index).toNat = key.index := UInt32.toNat_ofNat_of_lt' small
  simp [ofReading?, toJson, Field.head, Field.tail, index.decoded, version.decoded, place,
    reachable.ne, ofParts_parts, pure, Except.pure]

private theorem Slot.restores {value? : Reading → Except Defect α} {print : α → Json} {slot : Slot α}
    (filled : ∀ value, slot.value? = some value → Restores value? (print value) value)
    (present : ∀ value, print value ≠ .null) :
    Restores (Slot.ofReading? value?) (slot.toJson print) slot := by
  have version := restores_word (UInt32.toNat_lt_size slot.version)
  have content : Restores (Reading.option? value?) ((slot.value?.map print).getD .null) slot.value? := by
    cases held : slot.value? with
    | none => exact restores_none value?
    | some value => exact (filled value held).some (present value)
  have whole : Slot.ofParts? slot.version slot.value? = some slot := by
    simp [ofParts?, slot.parity]
  refine ⟨.object (by simp [content.regular, version.regular]), ?_⟩
  simp [Slot.ofReading?, Slot.toJson, Field.head, Field.tail, content.decoded, version.decoded, whole,
    pure, Except.pure]

namespace Arena

/-- The store as it is loaded, with the last vacant place to be filled first. -/
def reloaded (arena : Arena kind α) : Arena kind α := ofSlots arena.slots.toList

@[simp] theorem slots_reloaded (arena : Arena kind α) : arena.reloaded.slots = arena.slots := by
  simp [reloaded, ofSlots]

/-- What keys find depends on the places only. -/
theorem get?_of_slots {first second : Arena kind α} (same : first.slots = second.slots)
    (key : Key kind) : first.get? key = second.get? key := by
  simp [get?, slot?, same]

theorem entries_of_slots {first second : Arena kind α} (same : first.slots = second.slots) :
    first.entries = second.entries := by
  rw [entries, same]
  rfl

@[simp] theorem get?_reloaded (arena : Arena kind α) (key : Key kind) :
    arena.reloaded.get? key = arena.get? key :=
  get?_of_slots arena.slots_reloaded key

@[simp] theorem slot?_reloaded (arena : Arena kind α) (key : Key kind) :
    arena.reloaded.slot? key = arena.slot? key := by
  simp [slot?]

@[simp] theorem count_reloaded (arena : Arena kind α) : arena.reloaded.count = arena.count := by
  simp [count]

theorem toJson_reloaded (print : α → Json) (arena : Arena kind α) :
    arena.reloaded.toJson print = arena.toJson print := by
  simp [toJson]

theorem restores {value? : Reading → Except Defect α} {print : α → Json} {arena : Arena kind α}
    (filled : ∀ slot ∈ arena.slots.toList, ∀ value, slot.value? = some value →
      Restores value? (print value) value)
    (present : ∀ value, print value ≠ .null) :
    Restores (Arena.ofReading? value?) (arena.toJson print) arena.reloaded := by
  let vacant : Slot α := ⟨0, none, by simp⟩
  have listed : Restores (Reading.list? (Slot.ofReading? value?)) (arena.toJson print)
      (vacant :: arena.slots.toList) := by
    have text : arena.toJson print = .array ((vacant :: arena.slots.toList).map (Slot.toJson print)) := rfl
    rw [text]
    refine restores_list (Slot.toJson print) ?_
    intro slot member
    rcases List.mem_cons.mp member with rfl | member
    · exact Slot.restores (fun value held => by cases held) present
    · exact Slot.restores (filled slot member) present
  refine ⟨listed.regular, ?_⟩
  simp [Arena.ofReading?, listed.decoded, vacant, reloaded, pure, Except.pure]

end Arena

end MaskLayout
