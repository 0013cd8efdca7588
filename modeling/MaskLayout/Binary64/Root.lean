import MaskLayout.Binary64.Parts

/-!
The length of a vector, correctly rounded: the sum of squares is exact, and its root is taken to
sixty-four places more than a binary64 number has.
-/
namespace MaskLayout.Binary64

/-- The largest number whose square is at most `n`, found two binary places at a time. -/
def floorSqrt (n : Nat) : Nat :=
  if small : n = 0 then 0 else
    let root := 2 * floorSqrt (n / 4)
    if (root + 1) * (root + 1) ≤ n then root + 1 else root
termination_by n

/-- The root of `square * 2 ^ (2 * exponent)`. An inexact root is replaced by the half between the two
whole numbers around it, which lies on the same side of every rounding boundary. -/
def ofSquare (square : Nat) (exponent : Int) : Float :=
  let wide := square <<< 128
  let root := floorSqrt wide
  let halves := if root * root = wide then 2 * root else 2 * root + 1
  let ratio := scaled halves 1 (exponent - 65)
  ofRatio false ratio.1 ratio.2

/-- An infinite component makes the length infinite, even beside one that is not a number. -/
def hypot (x y : Float) : Float :=
  match parts x, parts y with
  | .infinite _, _ => infinite false
  | _, .infinite _ => infinite false
  | .notANumber, _ => notANumber
  | _, .notANumber => notANumber
  | .finite _ m p, .finite _ n q =>
    let exponent := min p q
    let a := m <<< (p - exponent).toNat
    let b := n <<< (q - exponent).toNat
    ofSquare (a * a + b * b) exponent

end MaskLayout.Binary64
