import MaskLayout.Layout.Basic

/-!
The check of a layout that comes from outside: every target is there, and no way along targets leads
back to where it was. The search goes depth first; the entries on the way to the current one are
open, and those behind it are done.
-/
namespace MaskLayout.Layout

variable {K : Type}

/-- All entries: the nodes, then the references. -/
def vertices (layout : Layout K) : List Target :=
  layout.nodes.keys.map .node ++ layout.references.keys.map .reference

/-- The targets that an entry refers to. -/
def targets (layout : Layout K) : Target → Except LayoutError (List Target)
  | .node key => do return (← layout.node key).children.map (·.2.target)
  | .reference key => do return [(← layout.reference key).target]

/-- The targets of an entry, all of which are there. -/
def successors (layout : Layout K) (vertex : Target) : Except LayoutError (List Target) := do
  let targets ← layout.targets vertex
  targets.forM layout.require
  return targets

def cyclePoint (layout : Layout K) : Target → CyclePoint
  | .node key => match layout.nodes.get? key with
    | some node => .node node.name
    | none => .removedNode
  | .reference _ => .reference

/-- Adds an entry, and what can be reached from it, to those that are done. The open entries are all
different, so there is never need for more steps down than there are entries. -/
def explore (layout : Layout K) (steps : Nat) (isOpen : List Target) (done : List Target)
    (vertex : Target) : Except LayoutError (List Target) :=
  match layout.successors vertex with
  | .error error => .error error
  | .ok successors =>
    match steps with
    | 0 => .error .endless
    | steps + 1 => do
      let isOpen := vertex :: isOpen
      let done ← successors.foldlM (fun done next =>
        if next ∈ isOpen then .error (.cycle (layout.cyclePoint next))
        else if next ∈ done then .ok done
        else layout.explore steps isOpen done next) done
      return vertex :: done

/-- Fails for a target that is not there, and for entries that lead back to themselves. -/
def validate (layout : Layout K) : Except LayoutError Unit := do
  let vertices := layout.vertices
  let _ ← vertices.foldlM (fun done vertex =>
    if vertex ∈ done then .ok done else layout.explore vertices.length [] done vertex) []

end MaskLayout.Layout
