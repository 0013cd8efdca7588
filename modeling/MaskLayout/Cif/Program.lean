import MaskLayout.Geometry.Polygon

/-!
Programs: routines that draw polygons and call one another, and the call that starts them. A polygon
is drawn on the layer named last before it in its routine. Coordinates are still those of the
layout.
-/
namespace MaskLayout.Cif

inductive Line (K : Type) where
  | layer (name : String)
  | polygon (polygon : Polygon K)
  | call (routine : Nat) (transform : Transform K)
  deriving DecidableEq, Repr

/-- Polygons of one layer that are drawn one after the other. -/
structure Run (K : Type) where
  layer : String
  polygons : List (Polygon K)

def Run.lines {K : Type} (run : Run K) : List (Line K) :=
  .layer run.layer :: run.polygons.map .polygon

/-- Routines are numbered from one in the order of the list. -/
structure Program (K : Type) where
  routines : List (List (Line K))
  /-- The routine that is the whole design, and how it is placed. -/
  root : Nat
  transform : Transform K

def Program.routine? {K : Type} (program : Program K) : Nat → Option (List (Line K))
  | 0 => none
  | number + 1 => program.routines[number]?

/-- What a compilation took. -/
structure Summary where
  routines : Nat
  /-- Edges that were expanded in place instead of called. -/
  inlineExpansions : Nat
  /-- Passes over pending calls, with the last one that defined nothing. -/
  passes : Nat
  deriving DecidableEq, Repr

end MaskLayout.Cif
