/-!
Binary64 numbers taken apart and put together. `parts` gives the exact value of a number, and
`ofRatio` the number nearest to an exact ratio, ties going to the even one.
-/
namespace MaskLayout.Binary64

/-- The weight of the sign in a word. -/
def signWeight : Nat := 0x8000000000000000

/-- The weight of the lowest place of the exponent in a word; all below it is the fraction. -/
def exponentWeight : Nat := 0x10000000000000

/-- What a binary64 number stands for. A finite one is `mantissa * 2 ^ exponent` with a sign. -/
inductive Parts where
  | notANumber
  | infinite (negative : Bool)
  | finite (negative : Bool) (mantissa : Nat) (exponent : Int)
  deriving DecidableEq, Repr

def parts (x : Float) : Parts :=
  let word := x.toBits.toNat
  let negative : Bool := signWeight ≤ word
  let field : Nat := word / exponentWeight % 2048
  let fraction : Nat := word % exponentWeight
  if field = 2047 then
    if fraction = 0 then .infinite negative else .notANumber
  else if field = 0 then .finite negative fraction (-1074)
  else .finite negative (exponentWeight + fraction) ((field : Int) - 1075)

/-- The whole number nearest to `numerator / denominator`; a half goes to the even neighbour. -/
def nearest (numerator denominator : Nat) : Nat :=
  let below := numerator / denominator
  let twice := 2 * (numerator % denominator)
  if twice < denominator then below
  else if denominator < twice then below + 1
  else below + below % 2

/-- The value `numerator / denominator * 2 ^ exponent` as a ratio of whole numbers. -/
def scaled (numerator denominator : Nat) (exponent : Int) : Nat × Nat :=
  if 0 ≤ exponent then (numerator <<< exponent.toNat, denominator)
  else (numerator, denominator <<< (-exponent).toNat)

/-- The largest power of two that is at most `numerator / denominator`, both positive. -/
def floorLog2 (numerator denominator : Nat) : Int :=
  let estimate := (numerator.log2 : Int) - denominator.log2
  let reduced := scaled numerator denominator (-estimate)
  if reduced.2 ≤ reduced.1 then estimate else estimate - 1

/-- The word of a magnitude. The fields of a word are arranged so that a mantissa that was rounded
up to the next power of two carries into the exponent. -/
def magnitudeWord (numerator denominator : Nat) : Nat :=
  let exponent := max (-1074) (floorLog2 numerator denominator - 52)
  let reduced := scaled numerator denominator (-exponent)
  min (2047 * exponentWeight) ((exponent + 1074).toNat * exponentWeight + nearest reduced.1 reduced.2)

/-- The number nearest to `numerator / denominator`, in lowest terms first so that it depends on the
ratio alone. What is too large becomes infinite, and a zero keeps its sign. -/
def ofRatio (negative : Bool) (numerator denominator : Nat) : Float :=
  let common := numerator.gcd denominator
  let magnitude :=
    if numerator = 0 then 0 else magnitudeWord (numerator / common) (denominator / common)
  Float.ofBits (UInt64.ofNat (magnitude + if negative then signWeight else 0))

def notANumber : Float := Float.ofBits 0x7FF8000000000000

def infinite (negative : Bool) : Float :=
  Float.ofBits (if negative then 0xFFF0000000000000 else 0x7FF0000000000000)

def isNegative (x : Float) : Bool := signWeight ≤ x.toBits.toNat

/-- Whether two numbers are the same one; a zero differs from the negative zero. -/
def same (x y : Float) : Bool := x.toBits == y.toBits

end MaskLayout.Binary64
