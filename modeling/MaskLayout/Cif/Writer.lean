import MaskLayout.Cif.Compile

/-!
Writing programs one after the other into a space of limited size. A text that does not fit fills
the space to its end.
-/
namespace MaskLayout.Cif

structure Space where
  limit : Nat
  written : ByteArray
  within : written.size ≤ limit

namespace Space

def empty (limit : Nat) : Space := ⟨limit, .empty, by simp⟩

/-- The space with as much of a text as fits, and whether that is all of it. -/
def append (space : Space) (text : String) : Space × Bool :=
  let bytes := text.toUTF8
  if fits : space.written.size + bytes.size ≤ space.limit then
    (⟨space.limit, space.written ++ bytes, by simpa using fits⟩, true)
  else
    let kept := bytes.extract 0 (space.limit - space.written.size)
    have within := space.within
    (⟨space.limit, space.written ++ kept, by
      simp only [ByteArray.size_append, kept, ByteArray.size_extract]; omega⟩, false)

/-- What has been written. A character that was cut is shown as one that is not known. -/
def text (space : Space) : String :=
  let without (cut : Nat) : Option String :=
    String.fromUTF8? (space.written.extract 0 (space.written.size - cut))
  match without 0 with
  | some text => text
  | none => (([1, 2, 3].findSome? without).getD "").push '\uFFFD'

end Space

variable {K : Type} [Scalar K]

/-- Compiles a subject and writes its text. Nothing is written when compiling fails. -/
def write (layout : Layout K) (settings : Settings K) (space : Space) (subject : Subject K) :
    Space × Except (CifError K) Summary :=
  match Draft.build layout settings subject with
  | .error error => (space, .error error)
  | .ok draft =>
    let (space, complete) := space.append (draft.text settings)
    (space, if complete then .ok draft.summary else .error .outOfSpace)

end MaskLayout.Cif
