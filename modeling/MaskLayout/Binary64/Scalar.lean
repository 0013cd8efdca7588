import MaskLayout.Scalar
import MaskLayout.Binary64.Root
import MaskLayout.Binary64.Angle

/-! Binary64 numbers as scalars. -/
namespace MaskLayout.Binary64

/-- The smaller of two numbers; one that is not a number is passed over, and of equal zeros the
first is taken. -/
def least (x y : Float) : Float :=
  if y < x then y else if x.isNaN then y else x

/-- The larger of two numbers, with the same rules as `least`. -/
def greatest (x y : Float) : Float :=
  if x < y then y else if x.isNaN then y else x

/-- The integer part, rounded toward zero and kept within 64 bits with sign. What is not a number
counts as zero. -/
def truncate (x : Float) : Int :=
  match parts x with
  | .notANumber => 0
  | .infinite negative => if negative then Int64.minValue.toInt else Int64.maxValue.toInt
  | .finite negative mantissa exponent =>
    let ratio := scaled mantissa 1 exponent
    let magnitude : Int := ratio.1 / ratio.2
    if negative then max Int64.minValue.toInt (-magnitude)
    else min Int64.maxValue.toInt magnitude

instance : Scalar Float where
  zero := 0.0
  one := 1.0
  min := least
  max := greatest
  decideLt := Float.decLt
  decideLe := Float.decLe
  abs := Float.abs
  sqrt := Float.sqrt
  hypot := hypot
  sin := sin
  cos := cos
  atan2 := atan2
  truncate := truncate
  tolerance := 1e-9
  degree := 0.017453292519943295
  radian := 57.29577951308232

end MaskLayout.Binary64
