import MaskLayout.Decimal.Shortest

/-! Numbers as they are written in a JSON text. -/
namespace MaskLayout.Json

/-- A written number. It is whole when it was written with neither a point nor a power of ten. -/
structure Numeral where
  negative : Bool
  decimal : Decimal
  whole : Bool
  deriving DecidableEq, Repr

namespace Numeral

def ofNat (n : Nat) : Numeral := ⟨false, ⟨n, 0⟩, true⟩

/-- Powers of ten of the first digit for which a number is written without an exponent. -/
def isPlain (leading : Int) : Bool := -5 ≤ leading ∧ leading ≤ 15

/-- The fewest digits that read back, rounded to even from the middle. A number without a fraction is
written with a zero after the point. What is not finite has no numeral. -/
def ofFloat? (x : Float) : Option Numeral :=
  (Decimal.shortest? .even x).map fun decimal =>
    let padded : Decimal :=
      if 0 ≤ decimal.exponent ∧ isPlain decimal.leading then
        ⟨decimal.digits * Nat.pow 10 (decimal.exponent.toNat + 1), -1⟩
      else decimal
    ⟨Binary64.isNegative x, padded, false⟩

def toFloat (numeral : Numeral) : Float := numeral.decimal.toFloat numeral.negative

def text (numeral : Numeral) : List Char :=
  let magnitude :=
    if numeral.whole ∨ numeral.decimal.exponent < 0 ∧ isPlain numeral.decimal.leading then
      numeral.decimal.positional
    else numeral.decimal.scientific
  if numeral.negative then '-' :: magnitude else magnitude

end Numeral

end MaskLayout.Json
