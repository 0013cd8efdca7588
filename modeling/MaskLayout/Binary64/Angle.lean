import MaskLayout.Binary64.Parts

/-!
Sine, cosine and the angle of a vector in fixed-point arithmetic, rounded once at the end. The
guard digits leave an error far below what could change a correctly rounded result.
-/
namespace MaskLayout.Binary64

/-- Binary places of the fixed-point values below. -/
def places : Nat := 256

/-- One, in fixed point. -/
def unit : Nat := 1 <<< places

/-- Binary places of the half turn: the largest binary64 number reduced by it keeps `places`. -/
def turnPlaces : Nat := 1400

/-- The arctangent of `1 / n` at `turnPlaces`, by the alternating power series. -/
def inverseTangent (n : Nat) : Int :=
  let rec go (steps : Nat) (power : Int) (odd : Nat) : Int :=
    match steps with
    | 0 => 0
    | steps + 1 => power / odd - go steps (power / (n * n)) (odd + 2)
  go (turnPlaces / 4) ((1 <<< turnPlaces : Nat) / n) 1

/-- A quarter turn at `turnPlaces`, from the arctangents of a fifth and of `1 / 239`. -/
def quarterTurn : Int := 2 * (4 * inverseTangent 5 - inverseTangent 239)

/-- A quarter turn at `places`. -/
def shortQuarterTurn : Int := quarterTurn / (1 <<< (turnPlaces - places) : Nat)

/-- The nearest binary64 number to a fixed-point value. -/
def ofFixed (value : Int) : Float := ofRatio (value < 0) value.natAbs unit

/-- The sum of `power / 1 - power * x² / (k (k + 1)) + ...`, `x²` being `square`, until the terms
vanish. With `k = 2` it is a sine, with `k = 1` a cosine. -/
def alternating (square : Int) (steps : Nat) (power : Int) (k : Nat) : Int :=
  match steps with
  | 0 => 0
  | steps + 1 =>
    power - alternating square steps (power * square / unit / (k * (k + 1) : Nat)) (k + 2)

def fixedSin (angle : Int) : Int := alternating (angle * angle / unit) 60 angle 2

def fixedCos (angle : Int) : Int := alternating (angle * angle / unit) 60 unit 1

/-- A finite angle as quarter turns and a rest of at most half of one, the rest at `places`. -/
def reduce (negative : Bool) (mantissa : Nat) (exponent : Int) : Int × Int :=
  let ratio := scaled (mantissa <<< turnPlaces) 1 exponent
  let magnitude : Int := ratio.1 / ratio.2
  let angle := if negative then -magnitude else magnitude
  let turns := (2 * angle + quarterTurn) / (2 * quarterTurn)
  (turns, (angle - turns * quarterTurn) / (1 <<< (turnPlaces - places) : Nat))

/-- Below this size an angle is its own sine and has cosine one, to the nearest number. -/
def isTiny (mantissa : Nat) (exponent : Int) : Bool :=
  mantissa = 0 ∨ (mantissa.log2 : Int) + exponent < -30

def sin (x : Float) : Float :=
  match parts x with
  | .finite negative mantissa exponent =>
    if isTiny mantissa exponent then x else
      let (turns, rest) := reduce negative mantissa exponent
      match turns % 4 with
      | 0 => ofFixed (fixedSin rest)
      | 1 => ofFixed (fixedCos rest)
      | 2 => ofFixed (-fixedSin rest)
      | _ => ofFixed (-fixedCos rest)
  | _ => notANumber

def cos (x : Float) : Float :=
  match parts x with
  | .finite negative mantissa exponent =>
    if isTiny mantissa exponent then 1 else
      let (turns, rest) := reduce negative mantissa exponent
      match turns % 4 with
      | 0 => ofFixed (fixedCos rest)
      | 1 => ofFixed (-fixedSin rest)
      | 2 => ofFixed (-fixedCos rest)
      | _ => ofFixed (fixedSin rest)
  | _ => notANumber

/-- The arctangent of a slope between zero and one, by a series whose terms at least halve. -/
def fixedTangent (slope : Int) : Int :=
  let square := slope * slope / unit
  let rec go (steps : Nat) (term : Int) (k : Nat) : Int :=
    match steps with
    | 0 => 0
    | steps + 1 =>
      term + go steps (term * square / (unit + square) * (2 * k) / (2 * k + 1 : Nat)) (k + 1)
  go places (slope * unit / (unit + square)) 1

/-- The angle of a slope `rise / run` so small that two terms of the power series give it. -/
def tinyTangent (negative : Bool) (rise run : Nat) : Float :=
  ofRatio negative (rise * (3 * run * run - rise * rise)) (3 * run * run * run)

/-- The angle of a vector with positive components, in fixed point. -/
def firstQuadrant (rise run : Nat) : Int :=
  if rise ≤ run then fixedTangent (rise * unit / run : Nat)
  else shortQuarterTurn - fixedTangent (run * unit / rise : Nat)

/-- The angle of a vector whose components are both nonzero and given on one scale. -/
def angleOf (down left : Bool) (rise run : Nat) : Float :=
  if ¬ left ∧ rise <<< 30 < run then tinyTangent down rise run
  else
    let angle := firstQuadrant rise run
    let angle := if left then 2 * shortQuarterTurn - angle else angle
    ofFixed (if down then -angle else angle)

/-- Eighths of a turn. -/
def eighths (negative : Bool) (count : Nat) : Float :=
  ofFixed (if negative then -(count * shortQuarterTurn / 2) else count * shortQuarterTurn / 2)

/-- The angle of the vector `(x, y)`. On an axis the signs of zeros choose the side, and infinite
components count as equally long. -/
def atan2 (y x : Float) : Float :=
  let down := isNegative y
  let left := isNegative x
  match parts y, parts x with
  | .notANumber, _ => notANumber
  | _, .notANumber => notANumber
  | .infinite _, .infinite _ => eighths down (if left then 3 else 1)
  | .infinite _, .finite .. => eighths down 2
  | .finite .., .infinite _ => if left then eighths down 4 else ofRatio down 0 1
  | .finite _ 0 _, .finite .. => if left then eighths down 4 else ofRatio down 0 1
  | .finite .., .finite _ 0 _ => eighths down 2
  | .finite _ m p, .finite _ n q =>
    let exponent := min p q
    angleOf down left (m <<< (p - exponent).toNat) (n <<< (q - exponent).toNat)

end MaskLayout.Binary64
