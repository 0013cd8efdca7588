import MaskLayout.Binary64.Parts

/-!
Decimal numbers: their value as binary64 numbers and their text. Signs are kept apart, so that zeros
keep theirs.
-/
namespace MaskLayout

/-- The number `digits * 10 ^ exponent`. -/
structure Decimal where
  digits : Nat
  exponent : Int
  deriving DecidableEq, Repr

namespace Decimal

/-- The nearest binary64 number. Far outside its range the answer does not need the exact ratio. -/
def toFloat (decimal : Decimal) (negative : Bool) : Float :=
  if decimal.digits = 0 then Binary64.ofRatio negative 0 1
  else if 400 < decimal.exponent then Binary64.infinite negative
  else if decimal.exponent + decimal.digits.log2 < -400 then Binary64.ofRatio negative 0 1
  else if 0 ≤ decimal.exponent then
    Binary64.ofRatio negative (decimal.digits * Nat.pow 10 decimal.exponent.toNat) 1
  else Binary64.ofRatio negative decimal.digits (Nat.pow 10 (-decimal.exponent).toNat)

def count (decimal : Decimal) : Nat := (Nat.toDigits 10 decimal.digits).length

/-- The power of ten of the first digit. -/
def leading (decimal : Decimal) : Int := decimal.count - 1 + decimal.exponent

/-- All digits around a point, with zeros up to it on either side; no point when nothing follows. -/
def positional (decimal : Decimal) : List Char :=
  let digits := Nat.toDigits 10 decimal.digits
  if 0 ≤ decimal.exponent then digits ++ List.replicate decimal.exponent.toNat '0'
  else
    let places := (-decimal.exponent).toNat
    let padded := digits.leftpad (places + 1) '0'
    let (whole, fraction) := padded.splitAt (padded.length - places)
    whole ++ '.' :: fraction

/-- One digit before the point, and the power of ten with its sign after an `e`. -/
def scientific (decimal : Decimal) : List Char :=
  let power := decimal.leading
  let sign := if power < 0 then '-' else '+'
  let significand :=
    match Nat.toDigits 10 decimal.digits with
    | first :: second :: rest => first :: '.' :: second :: rest
    | short => short
  significand ++ 'e' :: sign :: Nat.toDigits 10 power.natAbs

end Decimal

end MaskLayout
