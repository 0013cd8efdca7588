import MaskLayout.Cif.Program
import MaskLayout.Cif.Settings
import MaskLayout.Geometry.Decomposition

/-!
The text of a program. Each command stands on a line and ends with a semicolon, except the last one.
Coordinates are multiplied and then cut off to whole numbers, and parts of a call that would change
nothing are left out.
-/
namespace MaskLayout.Cif

/-- How a call places a routine: mirrored in y, then turned to a direction, then shifted. -/
structure Placing (α : Type) where
  mirrored : Bool
  direction : Option (α × α)
  shift : Option (α × α)
  deriving DecidableEq, Repr

inductive Command where
  | define (routine : Nat)
  | layer (name : String)
  | polygon (corners : List (Int × Int))
  | call (routine : Nat) (placing : Placing Int)
  | finish
  | stop
  deriving DecidableEq, Repr

variable {K : Type} [Scalar K]

/-- The parts of a transform that are seen, before they are cut off. -/
def placing (transform : Transform K) : Placing K where
  mirrored := transform.doesFlip
  direction :=
    if transform.doesRotate then
      some (Scalar.cos transform.rotation, Scalar.sin transform.rotation)
    else none
  shift := if transform.doesTranslate then some (transform.dx, transform.dy) else none

/-- A length in whole units of the file. -/
def quantize (value multiplier : K) : Int := Scalar.truncate (value * multiplier)

def quantizePair (multiplier : K) (pair : K × K) : Int × Int :=
  (quantize pair.1 multiplier, quantize pair.2 multiplier)

namespace Settings

def place (settings : Settings K) (placing : Placing K) : Placing Int where
  mirrored := placing.mirrored
  direction := placing.direction.map (quantizePair settings.rotationMultiplier)
  shift := placing.shift.map (quantizePair settings.multiplier)

def call (settings : Settings K) (routine : Nat) (transform : Transform K) : Command :=
  .call routine (settings.place (placing transform))

def command (settings : Settings K) : Line K → Command
  | .layer name => .layer name
  | .polygon polygon =>
    .polygon (polygon.points.map fun point => quantizePair settings.multiplier (point.x, point.y))
  | .call routine transform => settings.call routine transform

end Settings

namespace Program

/-- The definitions in the order of their numbers, then the call of the root. -/
def commands (program : Program K) (settings : Settings K) : List Command :=
  (program.routines.zipIdx.flatMap fun (lines, position) =>
    .define (position + 1) :: lines.map settings.command ++ [.finish]) ++
    [settings.call program.root program.transform, .stop]

end Program

namespace Command

def pairText (pair : Int × Int) : String := s!"{pair.1} {pair.2}"

def partText (mark : String) (pair? : Option (Int × Int)) : String :=
  match pair? with
  | some pair => s!" {mark} {pairText pair}"
  | none => ""

def text : Command → String
  | define routine => s!"DS {routine} 1 1;"
  | layer name => s!"L {name};"
  | polygon corners => "P " ++ String.intercalate " " (corners.map pairText) ++ ";"
  | call routine placing =>
    s!"C {routine}" ++ (if placing.mirrored then " MY" else "") ++
      partText "R" placing.direction ++ partText "T" placing.shift ++ ";"
  | finish => "DF;"
  | stop => "E"

end Command

namespace Program

def text (program : Program K) (settings : Settings K) : String :=
  String.join ((program.commands settings).map fun command => command.text ++ "\n")

end Program

end MaskLayout.Cif
