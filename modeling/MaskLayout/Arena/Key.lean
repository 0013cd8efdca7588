/-!
Keys of stored values. A key names a place and a generation of that place, so that the key of a
removed value does not find the value that took its place.
-/
namespace MaskLayout

/-- What a key is a key of. -/
inductive Kind where
  | node
  | reference
  deriving DecidableEq, Repr

/-- The generations of stored values are odd. -/
structure Key (kind : Kind) where
  index : Nat
  version : UInt32
  odd : version % 2 = 1
  deriving DecidableEq

namespace Key

variable {kind : Kind}

theorem odd_or_one (version : UInt32) : (version ||| 1) % 2 = 1 := by
  apply UInt32.toNat_inj.mp
  simp [Nat.or_mod_two_eq_one]

/-- The key with this place and generation; an even generation stands for the next one. -/
def ofParts (index : Nat) (version : UInt32) : Key kind :=
  ⟨index, version ||| 1, odd_or_one version⟩

instance : Inhabited (Key kind) := ⟨ofParts 0 1⟩

end Key

abbrev NodeKey := Key .node

abbrev ReferenceKey := Key .reference

end MaskLayout
