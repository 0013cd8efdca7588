/-!
Arithmetic of coordinates. Geometry is stated over any type with these operations, so that the same
definitions run on binary64 numbers and can be read over exact ones.
-/
namespace MaskLayout

/-- The operations geometry needs. No law is assumed of them: `min` and `max` may skip an operand
that is not a number, and comparisons need not be total. -/
class Scalar (K : Type) extends
    Zero K, One K, Add K, Sub K, Mul K, Div K, Neg K, LT K, LE K, Min K, Max K where
  decideLt (a b : K) : Decidable (a < b)
  decideLe (a b : K) : Decidable (a ≤ b)
  abs : K → K
  sqrt : K → K
  /-- The length of the vector with these two components. -/
  hypot : K → K → K
  sin : K → K
  cos : K → K
  /-- The angle of the vector `(x, y)`, given as `atan2 y x`. -/
  atan2 : K → K → K
  /-- The integer part, rounded toward zero, within the range of 64-bit signed integers. -/
  truncate : K → Int
  /-- Differences of at most this size count as none. -/
  tolerance : K
  /-- One degree in radians. -/
  degree : K
  /-- One radian in degrees. -/
  radian : K

namespace Scalar

instance [Scalar K] : DecidableLT K := decideLt

instance [Scalar K] : DecidableLE K := decideLe

variable [Scalar K]

/-- Whether a value differs from zero by more than the tolerance. -/
def visible (value : K) : Bool := tolerance < abs value

def toRadians (degrees : K) : K := degrees * degree

def toDegrees (radians : K) : K := radians * radian

def square (value : K) : K := value * value

end Scalar

end MaskLayout
