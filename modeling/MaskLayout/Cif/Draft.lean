import MaskLayout.Cif.Command
import MaskLayout.Cif.Fragment

/-!
A program while it is made. A call can be written only when its routine has a number, so that it is
drafted first and its place is noted. A pass takes up the places that were noted before it, one after
the other: what is called there is defined unless it is already, and the call with its number is put
in place of the draft. What the new definitions call is left to the next pass, and the pass that
defines nothing is the last one.
-/
namespace MaskLayout.Cif

inductive Entry (K : Type) where
  | line (written : Line K)
  /-- A call of a routine whose number is not known yet. -/
  | pending (fragment : Fragment) (transform : Transform K)
  /-- What is left in place of a call while it is taken up. -/
  | blank

/-- Where an entry stands: below all definitions, or in one of them. -/
inductive Place where
  | top (position : Nat)
  | body (routine position : Nat)
  deriving DecidableEq

structure Draft (K : Type) where
  routines : List (List (Entry K))
  top : List (Entry K)
  /-- The numbers of the fragments that are defined. -/
  numbers : List (Fragment × Nat)
  /-- The places of the calls that wait for a number. -/
  fixups : List Place
  expansions : Nat
  passes : Nat

namespace Entry

variable {K : Type}

def isPending : Entry K → Bool
  | pending _ _ => true
  | line _ | blank => false

def line? : Entry K → Option (Line K)
  | line written => some written
  | pending _ _ | blank => none

/-- The places at which entries wait for a number. -/
def sites (place : Nat → Place) (entries : List (Entry K)) : List Place :=
  (entries.zipIdx.filter fun entry => entry.1.isPending).map fun entry => place entry.2

/-- What is written of an entry: nothing of a call that still waits, and an empty line of a blank. -/
def text? [Scalar K] (settings : Settings K) : Entry K → Option String
  | line written => some (settings.command written).text
  | pending _ _ => none
  | blank => some ""

end Entry

def Edge.entries {K : Type} : Edge K → List (Entry K)
  | call fragment transform => [.pending fragment transform]
  | inline runs => (runs.flatMap Run.lines).map .line

def Body.entries {K : Type} (body : Body K) : List (Entry K) :=
  (body.runs.flatMap Run.lines).map .line ++ body.edges.flatMap Edge.entries

namespace Draft

variable {K : Type}

def empty : Draft K := ⟨[], [], [], [], 0, 0⟩

def held? (draft : Draft K) : Place → Option (Entry K)
  | .top position => draft.top[position]?
  | .body routine position => draft.routines[routine]?.bind (·[position]?)

def put (draft : Draft K) (place : Place) (entry : Entry K) : Draft K :=
  match place with
  | .top position => { draft with top := draft.top.set position entry }
  | .body routine position =>
    { draft with routines := draft.routines.modify routine fun entries => entries.set position entry }

/-- A routine of which only the number is known yet. -/
def allocate (draft : Draft K) : Nat × Draft K :=
  (draft.routines.length + 1, { draft with routines := draft.routines ++ [[]] })

def install (draft : Draft K) (number : Nat) (entries : List (Entry K)) : Draft K :=
  let routine := number - 1
  { draft with
    routines := draft.routines.set routine entries
    fixups := draft.fixups ++ Entry.sites (.body routine) entries }

variable [Scalar K]

def define (layout : Layout K) (settings : Settings K) (draft : Draft K) (fragment : Fragment) :
    Except (CifError K) (Nat × Draft K) := do
  let (number, draft) := draft.allocate
  let numbered := { draft with numbers := (fragment, number) :: draft.numbers }
  let body ← body layout settings fragment
  let expanded :=
    { numbered with expansions := numbered.expansions + body.edges.countP Edge.isInline }
  return (number, expanded.install number body.entries)

/-- Takes up the call at a place, if one waits there. -/
def resolve (layout : Layout K) (settings : Settings K) (draft : Draft K) (place : Place) :
    Except (CifError K) (Draft K) :=
  match draft.held? place with
  | some (.pending fragment transform) => do
    let taken := draft.put place .blank
    let (number, taken) ← match taken.numbers.lookup fragment with
      | some number => pure (number, taken)
      | none => taken.define layout settings fragment
    return taken.put place (.line (.call number transform))
  | _ => return draft

def pass (layout : Layout K) (settings : Settings K) (draft : Draft K) :
    Except (CifError K) (Draft K) :=
  draft.fixups.foldlM (resolve layout settings)
    { draft with fixups := [], passes := draft.passes + 1 }

/-- Passes until one defines nothing. -/
def run (layout : Layout K) (settings : Settings K) (allowance : Nat) (draft : Draft K) :
    Except (CifError K) (Draft K) :=
  match pass layout settings draft with
  | .error error => .error error
  | .ok next =>
    if next.routines.length = draft.routines.length then .ok next
    else match allowance with
      | 0 => .error (.layout .endless)
      | allowance + 1 => run layout settings allowance next

/-- The call of a subject. One that no call can carry becomes a routine of its own. -/
def start : Edge K → Draft K
  | .call root transform => { (empty : Draft K) with top := [.pending root transform] }
  | .inline runs =>
    let (number, draft) := { (empty : Draft K) with expansions := 1 }.allocate
    { draft.install number (Edge.inline runs).entries with
      top := [.line (.call number .identity)] }

def seed (layout : Layout K) (settings : Settings K) (subject : Subject K) :
    Except (CifError K) (Draft K) := do
  let draft := start (← subject.edge layout settings)
  return { draft with fixups := draft.fixups ++ Entry.sites .top draft.top }

/-- The finished draft of a subject. Along targets that do not lead back to themselves no pass is
further from the first one than there are nodes. -/
def build (layout : Layout K) (settings : Settings K) (subject : Subject K) :
    Except (CifError K) (Draft K) := do
  (← seed layout settings subject).run layout settings layout.nodes.count

/-- The lines of a draft, with the call that starts it. -/
def program (draft : Draft K) : Program K :=
  let calls := draft.top.filterMap fun
    | .line (.call routine transform) => some (routine, transform)
    | _ => none
  let (root, transform) := calls.headD (1, .identity)
  ⟨draft.routines.map (List.filterMap Entry.line?), root, transform⟩

omit [Scalar K] in
def summary (draft : Draft K) : Summary := ⟨draft.routines.length, draft.expansions, draft.passes⟩

/-- The definitions in the order of their numbers, then what stands below them. -/
def lines (draft : Draft K) (settings : Settings K) : List String :=
  (draft.routines.zipIdx.flatMap fun (entries, position) =>
    (Command.define (position + 1)).text :: entries.filterMap (Entry.text? settings) ++
      [Command.finish.text]) ++
    draft.top.filterMap (Entry.text? settings) ++ [Command.stop.text]

def text (draft : Draft K) (settings : Settings K) : String :=
  String.join ((draft.lines settings).map (· ++ "\n"))

end Draft

end MaskLayout.Cif
