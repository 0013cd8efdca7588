import MaskLayout.Decimal.Basic

/-!
The decimal with the fewest digits that reads back as a given binary64 number, and of those the one
nearest to it. Each number of digits is a grid of decimals, and only the two neighbours of the exact
value on a grid need to be tried. When both are equally near, a rule for ties decides.
-/
namespace MaskLayout.Decimal

/-- Where a value goes that lies in the middle between two decimals. -/
inductive Tie where
  | even
  | up
  deriving DecidableEq, Repr

/-- Whether to go down, given the digits below and twice the part of `unit` that is left over. -/
def Tie.isDown (tie : Tie) (below twice unit : Nat) : Bool :=
  twice < unit ∨ twice = unit ∧ tie = .even ∧ below % 2 = 0

/-- A finite binary64 magnitude written out in full. -/
def exact (mantissa : Nat) (exponent : Int) : Decimal :=
  if 0 ≤ exponent then ⟨mantissa <<< exponent.toNat, 0⟩
  else ⟨mantissa * Nat.pow 5 (-exponent).toNat, exponent⟩

def readsAs (decimal : Decimal) (x : Float) : Bool :=
  Binary64.same (decimal.toFloat (Binary64.isNegative x)) x

/-- The same value with one zero less at its end, if it has one. -/
def trim (decimal : Decimal) : Decimal :=
  if decimal.digits % 10 = 0 then ⟨decimal.digits / 10, decimal.exponent + 1⟩ else decimal

/-- The nearer neighbour that reads back, on the grid that gives up the last `dropped` digits. The
neighbour above may be carried into one more digit, which is then zero. -/
def neighbour? (value : Decimal) (tie : Tie) (x : Float) (dropped : Nat) : Option Decimal :=
  let unit := Nat.pow 10 dropped
  let below : Decimal := ⟨value.digits / unit, value.exponent + dropped⟩
  let above := trim ⟨below.digits + 1, below.exponent⟩
  let nearBelow := tie.isDown below.digits (2 * (value.digits % unit)) unit
  if below.readsAs x && (nearBelow || !above.readsAs x) then some below
  else if above.readsAs x then some above
  else none

/-- Seventeen digits are enough for every binary64 number. -/
def search (value : Decimal) (tie : Tie) (x : Float) : Decimal :=
  let count := value.count
  let grids := (List.range 17).filter (· < count)
  (grids.findSome? fun kept => value.neighbour? tie x (count - 1 - kept)).getD value

/-- The fewest digits of a finite number, `none` for the others. -/
def shortest? (tie : Tie) (x : Float) : Option Decimal :=
  match Binary64.parts x with
  | .finite _ 0 _ => some ⟨0, 0⟩
  | .finite _ mantissa exponent => some ((exact mantissa exponent).search tie x)
  | _ => none

/-- How a number stands in a message: never with a power of ten, and rounded up from the middle. -/
def inMessage (x : Float) : String :=
  let sign := if Binary64.isNegative x then "-" else ""
  match shortest? .up x with
  | some decimal => sign ++ String.ofList decimal.positional
  | none => if x.isNaN then "NaN" else sign ++ "inf"

end MaskLayout.Decimal
