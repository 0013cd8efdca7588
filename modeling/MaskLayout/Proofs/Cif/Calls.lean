import MaskLayout.Proofs.Cif.Numbering
import MaskLayout.Proofs.Layout.Picture

namespace MaskLayout.Cif

open BreadthFirst

variable {K : Type}

/-- One routine calls another. -/
def Program.Calls (program : Program K) (caller callee : Nat) : Prop :=
  ∃ lines transform, program.routine? caller = some lines ∧ .call callee transform ∈ lines

private theorem Edge.call_mem_lines_iff {edge : Edge K} {number : Fragment → Nat} {called : Nat} :
    (∃ transform, .call called transform ∈ edge.lines number) ↔
      ∃ callee ∈ edge.calls, number callee = called := by
  cases edge with
  | call fragment placed =>
    simp only [Edge.lines, Edge.calls, List.mem_singleton, Line.call.injEq, exists_and_left,
      exists_eq, and_true, exists_eq_left]
    exact eq_comm
  | inline runs =>
    have silent (transform : Transform K) : .call called transform ∉ runs.flatMap Run.lines := by
      simp [Run.lines]
    simp [Edge.lines, Edge.calls, silent]

private theorem Body.call_mem_lines_iff {body : Body K} {number : Fragment → Nat} {called : Nat} :
    (∃ transform, .call called transform ∈ body.lines number) ↔
      ∃ callee ∈ body.calls, number callee = called := by
  have silent (transform : Transform K) : .call called transform ∉ body.runs.flatMap Run.lines := by
    simp [Run.lines]
  constructor
  · intro drawn
    obtain ⟨transform, member⟩ := drawn
    have placed := (List.mem_append.mp member).resolve_left (silent transform)
    obtain ⟨edge, listed, inside⟩ := List.mem_flatMap.mp placed
    obtain ⟨callee, calls, same⟩ := Edge.call_mem_lines_iff.mp ⟨transform, inside⟩
    exact ⟨callee, List.mem_flatMap.mpr ⟨edge, listed, calls⟩, same⟩
  · intro named
    obtain ⟨callee, member, same⟩ := named
    obtain ⟨edge, listed, calls⟩ := List.mem_flatMap.mp member
    obtain ⟨transform, inside⟩ := Edge.call_mem_lines_iff.mpr ⟨callee, calls, same⟩
    exact ⟨transform, List.mem_append_right _ (List.mem_flatMap.mpr ⟨edge, listed, inside⟩)⟩

/-- The number of a fragment leads back to the fragment. -/
theorem Defined.fragment_of_number {defined : Defined K} {fragment : Fragment}
    (member : fragment ∈ defined.fragments) :
    defined.fragments[defined.number fragment - 1]? = some fragment := by
  rw [Defined.number, Nat.add_sub_cancel]
  exact List.getElem?_idxOf member

private theorem Defined.number_injective {defined : Defined K} {fragment other : Fragment}
    (member : fragment ∈ defined.fragments) (present : other ∈ defined.fragments)
    (same : defined.number fragment = defined.number other) : fragment = other := by
  have first := defined.fragment_of_number member
  rw [same, defined.fragment_of_number present] at first
  exact (Option.some.inj first).symm

variable [Scalar K] {layout : Layout K} {settings : Settings K} {defined : Defined K}
  {program : Program K}

theorem callee?_eq_some {layerMap : LayerMap} {reference : Reference K} {callee : Fragment}
    (found : callee? layout layerMap reference = some callee) :
    layout.resolve reference = .ok callee.node ∧ layout.isNative reference = true ∧
      ∃ inner, layout.flatLayerMap reference none = .ok inner ∧
        inner.compose layerMap = .ok callee.layerMap := by
  unfold callee? at found
  split at found
  · rename_i node inner resolved mapped
    split at found
    · rename_i composed fits
      split at found
      · rename_i native
        cases Option.some.inj found
        exact ⟨resolved, native, inner, mapped, fits⟩
      · cases found
    · cases found
  · cases found

/-- The node of a fragment that is called lies below the node that calls it. -/
theorem below_of_callees {fragment callee : Fragment} (member : callee ∈ callees layout fragment) :
    layout.Below (.node callee.node) (.node fragment.node) := by
  unfold callees at member
  split at member
  · rename_i node found
    obtain ⟨child, listed, called⟩ := List.mem_filterMap.mp member
    exact Layout.below_of_resolve found listed (callee?_eq_some called).1
  · cases member

/-- A program with one routine for each of some fragments that call only one another. -/
structure Assembled (layout : Layout K) (settings : Settings K) (defined : Defined K)
    (program : Program K) : Prop where
  routines : program.routines = defined.routines
  made : defined.Made layout settings
  distinct : defined.fragments.Nodup
  closed : ∀ fragment ∈ defined.fragments, ∀ callee ∈ callees layout fragment,
    callee ∈ defined.fragments

/-- An outline is assembled into a program that starts with the fragment of the root. -/
theorem assembled_of_outline {root : Fragment} {passes : Nat} (transform : Transform K)
    (outlined : outline layout settings root = .ok (defined, passes)) :
    Assembled layout settings defined ⟨defined.routines, defined.number root, transform⟩ ∧
      defined.number root = 1 ∧ ∀ fragment,
        fragment ∈ defined.fragments ↔ ∃ length, Walk (callees layout) root length fragment := by
  obtain ⟨sweeps, made⟩ := outline_eq_ok outlined
  obtain ⟨_, distinct, reachable, _⟩ := sweeps.spec
  refine ⟨⟨rfl, made, distinct, fun fragment member callee called => ?_⟩, ?_, reachable⟩
  · obtain ⟨length, way⟩ := (reachable fragment).mp member
    exact (reachable callee).mpr ⟨length + 1, .step way called⟩
  · obtain ⟨rest, order⟩ := List.head?_eq_some_iff.mp sweeps.head?
    simp [Defined.number, order]

namespace Assembled

variable (assembled : Assembled layout settings defined program)

include assembled

private theorem length_routines : program.routines.length = defined.fragments.length := by
  simp [assembled.routines, Defined.routines, Defined.fragments]

/-- A routine holds the lines of the body of a fragment, and its number is that of the fragment. -/
theorem routine?_eq_some_iff {number : Nat} {lines : List (Line K)} :
    program.routine? number = some lines ↔ ∃ fragment ∈ defined.fragments,
      defined.number fragment = number ∧ ∃ made, body layout settings fragment = .ok made ∧
        lines = made.lines defined.number := by
  constructor
  · intro found
    cases number with
    | zero => cases found
    | succ position =>
      have stored : defined.routines[position]? = some lines := by
        rw [← assembled.routines]
        exact found
      rw [Defined.routines, List.getElem?_map] at stored
      obtain ⟨entry, listed, same⟩ := Option.map_eq_some_iff.mp stored
      have there : defined.fragments[position]? = some entry.1 := by
        rw [Defined.fragments, List.getElem?_map, listed]
        rfl
      obtain ⟨within, here⟩ := List.getElem?_eq_some_iff.mp there
      refine ⟨entry.1, List.mem_of_getElem? there, ?_, entry.2,
        assembled.made entry (List.mem_of_getElem? listed), same.symm⟩
      rw [Defined.number, ← here, assembled.distinct.idxOf_getElem]
  · intro known
    obtain ⟨fragment, member, rfl, made, found, rfl⟩ := known
    have there := defined.fragment_of_number member
    rw [Defined.number, Nat.add_sub_cancel, Defined.fragments, List.getElem?_map] at there
    obtain ⟨entry, listed, rfl⟩ := Option.map_eq_some_iff.mp there
    have held := assembled.made entry (List.mem_of_getElem? listed)
    cases Except.ok.inj (held.symm.trans found)
    have looked : program.routine? (defined.number entry.1) =
        program.routines[defined.fragments.idxOf entry.1]? := rfl
    rw [looked, assembled.routines, Defined.routines, List.getElem?_map]
    exact congrArg _ listed

private theorem calls_iff {caller callee : Nat} : program.Calls caller callee ↔
    ∃ fragment ∈ defined.fragments, defined.number fragment = caller ∧
      ∃ called ∈ callees layout fragment, defined.number called = callee := by
  constructor
  · intro calls
    obtain ⟨lines, transform, found, member⟩ := calls
    obtain ⟨fragment, known, same, made, built, rfl⟩ := assembled.routine?_eq_some_iff.mp found
    have named := Body.call_mem_lines_iff.mp ⟨transform, member⟩
    rw [body_calls built] at named
    exact ⟨fragment, known, same, named⟩
  · intro leads
    obtain ⟨fragment, known, same, named⟩ := leads
    have there := defined.fragment_of_number known
    rw [Defined.fragments, List.getElem?_map] at there
    obtain ⟨entry, listed, rfl⟩ := Option.map_eq_some_iff.mp there
    have built := assembled.made entry (List.mem_of_getElem? listed)
    rw [← body_calls built] at named
    obtain ⟨transform, member⟩ := Body.call_mem_lines_iff.mpr named
    exact ⟨entry.2.lines defined.number, transform,
      assembled.routine?_eq_some_iff.mpr ⟨entry.1, known, same, entry.2, built, rfl⟩, member⟩

/-- Every call names a routine that is there. -/
theorem called {caller callee : Nat} (calls : program.Calls caller callee) :
    1 ≤ callee ∧ callee ≤ program.routines.length := by
  obtain ⟨fragment, known, _, called, leads, rfl⟩ := assembled.calls_iff.mp calls
  have within := List.idxOf_lt_length_of_mem (assembled.closed fragment known called leads)
  rw [assembled.length_routines]
  exact ⟨Nat.succ_pos _, within⟩

/-- Calls lead down the hierarchy of the layout. -/
theorem below_of_calls {upper lower : Nat} (calls : Relation.TransGen program.Calls upper lower) :
    ∃ caller ∈ defined.fragments, ∃ callee ∈ defined.fragments, defined.number caller = upper ∧
      defined.number callee = lower ∧ layout.Below (.node callee.node) (.node caller.node) := by
  induction calls with
  | single step =>
    obtain ⟨caller, known, upper, callee, leads, lower⟩ := assembled.calls_iff.mp step
    exact ⟨caller, known, callee, assembled.closed caller known callee leads, upper, lower,
      below_of_callees leads⟩
  | tail _ step ih =>
    obtain ⟨caller, known, middle, present, upper, same, below⟩ := ih
    obtain ⟨other, listed, again, callee, leads, lower⟩ := assembled.calls_iff.mp step
    cases defined.number_injective listed present (again.trans same.symm)
    exact ⟨caller, known, callee, assembled.closed _ listed callee leads, upper, lower,
      below.trans (below_of_callees leads)⟩

/-- No routine calls itself, be it through others. -/
theorem calls_acyclic (acyclic : layout.Acyclic) (number : Nat) :
    ¬ Relation.TransGen program.Calls number number := by
  intro round
  obtain ⟨caller, known, callee, present, upper, lower, below⟩ := assembled.below_of_calls round
  cases defined.number_injective known present (upper.trans lower.symm)
  exact acyclic _ below

/-- What the search reaches is reached by calls. -/
theorem reached_of_walk {root fragment : Fragment} (first : root ∈ defined.fragments) {length : Nat}
    (way : Walk (callees layout) root length fragment) :
    fragment ∈ defined.fragments ∧
      Relation.ReflTransGen program.Calls (defined.number root) (defined.number fragment) := by
  induction way with
  | start => exact ⟨first, .refl⟩
  | step way member ih =>
    obtain ⟨known, reached⟩ := ih
    exact ⟨assembled.closed _ known _ member,
      reached.tail (assembled.calls_iff.mpr ⟨_, known, rfl, _, member, rfl⟩)⟩

end Assembled

end MaskLayout.Cif
