import MaskLayout.NameTable
import MaskLayout.Layout.Error

/-!
Maps from layer names to layer names. A map may also discard a layer, and a table may not know a
name. Maps compose, the inner one first; composing can fail, and a table keeps a destination that
the outer table does not know.
-/
namespace MaskLayout

inductive LayerMap where
  /-- Every name passes through. -/
  | identity
  /-- Every name goes to the same place, `none` discarding it. -/
  | constant (destination : Option String)
  /-- Each name goes where its entry says; other names are not known. -/
  | table (entries : NameTable (Option String))
  deriving DecidableEq

namespace LayerMap

instance : Inhabited LayerMap := ⟨identity⟩

def discardAll : LayerMap := constant none

def ofList (entries : List (String × Option String)) : LayerMap := table (.ofList entries)

def rename (source destination : String) : LayerMap := ofList [(source, some destination)]

/-- Where a layer goes, `none` if it is discarded. -/
def lookup (map : LayerMap) (name : String) : Except LayoutError (Option String) :=
  match map with
  | identity => .ok (some name)
  | constant destination => .ok destination
  | table entries =>
    match entries.find? name with
    | some destination => .ok destination
    | none => .error (.unknownLayer name)

/-- A destination of the inner table, sent on by the outer one if that knows it. -/
def sendOn (outer : NameTable (Option String)) (destination : Option String) : Option String :=
  match destination with
  | some name => (outer.find? name).getD (some name)
  | none => none

/-- The map that applies `below` first and then `above`. -/
def compose (below above : LayerMap) : Except LayoutError LayerMap :=
  match below, above with
  | below, identity => .ok below
  | _, constant destination => .ok (constant destination)
  | identity, table entries => .ok (table entries)
  | constant none, table _ => .ok (constant none)
  | constant (some name), table entries =>
    match entries.find? name with
    | some destination => .ok (constant destination)
    | none => .error (.unknownLayer name)
  | table inner, table outer => .ok (table (inner.map (sendOn outer)))

end LayerMap

end MaskLayout
