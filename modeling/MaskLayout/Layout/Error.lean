import MaskLayout.Arena.Key

/-! What can go wrong with a layout, each cause with its message. -/
namespace MaskLayout

/-- Why something cannot be a child. -/
inductive ChildFault where
  | notReference
  | emptyName
  | duplicateName
  | missingTarget
  deriving DecidableEq, Repr

/-- An entry that refers back to itself. -/
inductive CyclePoint where
  | node (name : String)
  | removedNode
  | reference
  deriving DecidableEq, Repr

inductive LayoutError where
  /-- A node was given as a child without a reference to it. -/
  | bareNodeChild (name : String)
  | invalidChild (name : String) (fault : ChildFault)
  /-- A reference that is stacked on others was to be copied. -/
  | copyStacked (depth : Nat)
  | unknownLayer (name : String)
  /-- A key whose value was removed, or that was never handed out. -/
  | staleKey (kind : Kind)
  | invalidDepth (depth max : Nat)
  | cycle (point : CyclePoint)
  | emptyGeometry
  /-- References that lead round in circles, so that a walk along them does not end. -/
  | endless
  deriving DecidableEq, Repr

def Kind.word : Kind → String
  | .node => "node"
  | .reference => "reference"

def ChildFault.message : ChildFault → String
  | .notReference => "not a Reference; add geometry with `polygon` instead"
  | .emptyName => "child names must be non-empty"
  | .duplicateName => "duplicate child name"
  | .missingTarget => "target is not in this layout"

def CyclePoint.message : CyclePoint → String
  | .node name => s!"node '{name}'"
  | .removedNode => "a removed node"
  | .reference => "a shared reference"

def LayoutError.message : LayoutError → String
  | .bareNodeChild name => s!"Child '{name}' is a bare Node; wrap it in a Reference first"
  | .invalidChild name fault => s!"Invalid child '{name}': {fault.message}"
  | .copyStacked depth =>
    s!"Cannot copy a Reference of depth {depth}; only depth-1 References can be copied"
  | .unknownLayer name => s!"Layer '{name}' is not in the layer map"
  | .staleKey kind => s!"Stale {kind.word} key: the entry was removed from the layout"
  | .invalidDepth depth max => s!"Invalid stack depth {depth} for a Reference of depth {max}"
  | .cycle point => s!"Reference cycle through {point.message}"
  | .emptyGeometry => "Design has no geometry"
  | .endless => "References without end"

end MaskLayout
