import MaskLayout.Proofs.Cif.Draft

/-!
Drafts in the middle of a pass. The fragments that are defined determine a draft, but for the places
where calls still wait: these hold the calls as they were drafted, and all others the calls with their
numbers. The places that are noted are those of the pending fragments, in the same order. This is kept
when a call gets its number and when a fragment is defined.
-/
namespace MaskLayout.Cif

variable {K : Type}

private theorem Defined.number_append_of_mem {defined added : Defined K} {fragment : Fragment}
    (member : fragment ∈ defined.fragments) :
    Defined.number (defined ++ added) fragment = defined.number fragment := by
  rw [number, number, fragments_append, List.idxOf_append_of_mem member]

theorem Defined.number_append_self {defined : Defined K} {fragment : Fragment}
    (fresh : fragment ∉ defined.fragments) (made : Body K) :
    Defined.number (defined ++ [(fragment, made)]) fragment = defined.length + 1 := by
  rw [number, fragments_append, List.idxOf_append_of_notMem fresh, fragments_singleton,
    List.idxOf_cons_self, length_fragments, Nat.add_zero]

/-- The draft of what is defined in which no call has its number. -/
def Defined.sketch (defined : Defined K) (top : List (Entry K)) : Draft K :=
  { (Draft.empty : Draft K) with routines := defined.map fun entry => entry.2.entries, top }

private theorem Defined.length_sketch (defined : Defined K) (top : List (Entry K)) :
    (defined.sketch top).routines.length = defined.length := List.length_map _

theorem Defined.held?_sketch_append (defined : Defined K) (top : List (Entry K)) (fragment : Fragment)
    (made : Body K) (place : Place) : (Defined.sketch (defined ++ [(fragment, made)]) top).held? place =
      ((defined.sketch top).held? place).or
        (Draft.inRoutine? defined.length made.entries place) := by
  rw [← defined.length_sketch top]
  apply Draft.held?_of_append
  · rfl
  · exact List.map_append

/-- A place at which a fragment is called. -/
def Draft.Calls (draft : Draft K) (place : Place) (fragment : Fragment) : Prop :=
  ∃ transform, draft.held? place = some (.pending fragment transform)

private theorem Draft.Calls.append {defined : Defined K} {top : List (Entry K)} {place : Place}
    {callee : Fragment} (calls : (defined.sketch top).Calls place callee) (fragment : Fragment)
    (made : Body K) : (Defined.sketch (defined ++ [(fragment, made)]) top).Calls place callee := by
  obtain ⟨placed, found⟩ := calls
  exact ⟨placed, by rw [Defined.held?_sketch_append, found, Option.some_or]⟩

/-- The calls of a new routine. -/
theorem Defined.calls_sites (defined : Defined K) (top : List (Entry K)) (fragment : Fragment)
    (made : Body K) : List.Forall₂ (Defined.sketch (defined ++ [(fragment, made)]) top).Calls
      (Entry.sites (.body defined.length) made.entries) made.calls := by
  rw [← made.filterMap_callee?]
  refine (Entry.forall₂_sites _ _).imp fun site callee waits => ?_
  obtain ⟨position, placed, rfl, found⟩ := waits
  have inside : Draft.inRoutine? defined.length made.entries (.body defined.length position) =
      some (.pending callee placed) := by simpa [Draft.inRoutine?] using found
  have outside := Draft.held?_eq_none_of_inRoutine? (defined.length_sketch top) inside
  exact ⟨placed, by rw [held?_sketch_append, outside, inside, Option.none_or]⟩

/-- A draft in the middle of a pass beside the fragments that are defined, with the places that are
left of the pass. -/
structure Draft.Tracks (top : List (Entry K)) (draft : Draft K) (rest : List Place)
    (defined : Defined K) (pending later : List Fragment) : Prop where
  size : draft.routines.length = defined.length
  numbers : ∀ fragment, draft.numbers.lookup fragment =
    if fragment ∈ defined.fragments then some (defined.number fragment) else none
  expansions : draft.expansions = (defined.flatMap (·.2.edges)).countP Edge.isInline
  left : List.Forall₂ (defined.sketch top).Calls rest pending
  noted : List.Forall₂ (defined.sketch top).Calls draft.fixups later
  distinct : (rest ++ draft.fixups).Nodup
  waits : ∀ place ∈ rest ++ draft.fixups, draft.held? place = (defined.sketch top).held? place
  settled : ∀ place ∉ rest ++ draft.fixups,
    draft.held? place = ((defined.sketch top).held? place).map (Entry.settle defined.number)
  known : ∀ place ∉ rest ++ draft.fixups, ∀ fragment,
    (defined.sketch top).Calls place fragment → fragment ∈ defined.fragments

namespace Draft.Tracks

variable {top : List (Entry K)} {draft : Draft K} {place : Place} {rest : List Place}
  {defined : Defined K} {fragment : Fragment} {pending later : List Fragment}

/-- The call of a fragment that is defined gets its number. -/
theorem settle {transform : Transform K}
    (tracks : Tracks top draft (place :: rest) defined (fragment :: pending) later)
    (found : (defined.sketch top).held? place = some (.pending fragment transform))
    (member : fragment ∈ defined.fragments) :
    Tracks top (draft.put place (.line (.call (defined.number fragment) transform))) rest defined
      pending later := by
  have apart : place ∉ rest ++ draft.fixups := (List.nodup_cons.mp tracks.distinct).1
  have same := tracks.waits place (by simp)
  cases tracks.left with
  | cons _ left =>
    refine ⟨by simpa using tracks.size, by simpa using tracks.numbers, by simpa using tracks.expansions,
      left, by simpa using tracks.noted, ?_, ?_, ?_, ?_⟩
    · simpa using (List.nodup_cons.mp tracks.distinct).2
    · intro other listed
      rw [fixups_put] at listed
      have different : other ≠ place := fun equal => apart (equal ▸ listed)
      rw [held?_put, if_neg different, tracks.waits other (List.mem_cons_of_mem _ listed)]
    · intro other outside
      rw [fixups_put] at outside
      rw [held?_put]
      split
      · rename_i equal
        rw [equal, same, found]
        rfl
      · rename_i different
        exact tracks.settled other (by simpa [different] using outside)
    · intro other outside callee calls
      rw [fixups_put] at outside
      by_cases equal : other = place
      · obtain ⟨placed, holds⟩ := calls
        rw [equal, found] at holds
        cases holds
        exact member
      · exact tracks.known other (by simpa [equal] using outside) callee calls

/-- A place that is noted is that of a call. -/
theorem calls_of_mem (tracks : Tracks top draft rest defined pending later)
    (listed : place ∈ rest ++ draft.fixups) : ∃ callee, (defined.sketch top).Calls place callee := by
  rcases List.mem_append.mp listed with member | member
  · obtain ⟨callee, _, calls⟩ := exists_mem_of_forall₂ tracks.left.flip member
    exact ⟨callee, calls⟩
  · obtain ⟨callee, _, calls⟩ := exists_mem_of_forall₂ tracks.noted.flip member
    exact ⟨callee, calls⟩

private theorem numbers_extend (tracks : Tracks top draft rest defined pending later)
    (fresh : fragment ∉ defined.fragments) (made : Body K) (callee : Fragment) :
    (draft.extend fragment made).numbers.lookup callee =
      if callee ∈ Defined.fragments (defined ++ [(fragment, made)]) then
        some (Defined.number (defined ++ [(fragment, made)]) callee) else none := by
  simp only [Draft.extend, List.lookup_cons, Defined.fragments_append, Defined.fragments_singleton,
    List.mem_append, List.mem_singleton, tracks.size, tracks.numbers]
  by_cases same : callee = fragment
  · simp [same, Defined.number_append_self fresh]
  · have apart : (callee == fragment) = false := beq_false_of_ne same
    by_cases member : callee ∈ defined.fragments
    · simp [apart, member, Defined.number_append_of_mem member]
    · simp [apart, same, member]

private theorem not_mem_sites (tracks : Tracks top draft rest defined pending later)
    (listed : place ∈ rest ++ draft.fixups) (entries : List (Entry K)) :
    place ∉ Entry.sites (.body defined.length) entries := by
  intro added
  obtain ⟨entry, inside, _⟩ := mem_sites_body_iff.mp added
  obtain ⟨callee, placed, found⟩ := tracks.calls_of_mem listed
  rw [held?_eq_none_of_inRoutine? (defined.length_sketch top) inside] at found
  cases found

private theorem held?_extend (tracks : Tracks top draft rest defined pending later) (fragment : Fragment)
    (made : Body K) (place : Place) : (draft.extend fragment made).held? place =
      (draft.held? place).or (inRoutine? defined.length made.entries place) := by
  rw [← tracks.size, Draft.held?_extend]

private theorem settled_extend (tracks : Tracks top draft rest defined pending later)
    (fragment : Fragment)
    (made : Body K) (settled : place ∉ rest ++ draft.fixups)
    (outside : place ∉ Entry.sites (.body defined.length) made.entries) :
    (draft.extend fragment made).held? place =
      ((Defined.sketch (defined ++ [(fragment, made)]) top).held? place).map
        (Entry.settle (Defined.number (defined ++ [(fragment, made)]))) := by
  rw [tracks.held?_extend, Defined.held?_sketch_append, tracks.settled place settled]
  cases held : (defined.sketch top).held? place with
  | some entry =>
    cases entry with
    | line written => rfl
    | blank => rfl
    | pending callee placed =>
      have member := tracks.known place settled callee ⟨placed, held⟩
      simp [Entry.settle, Defined.number_append_of_mem member]
  | none =>
    cases inside : inRoutine? defined.length made.entries place with
    | none => rfl
    | some entry =>
      cases entry with
      | line written => rfl
      | blank => rfl
      | pending callee placed => exact absurd (mem_sites_body_iff.mpr ⟨_, inside, rfl⟩) outside

/-- A fragment is defined, and what its body calls is noted behind what was noted before. -/
theorem extend (tracks : Tracks top draft rest defined pending later)
    (fresh : fragment ∉ defined.fragments) (made : Body K) :
    Tracks top (draft.extend fragment made) rest (defined ++ [(fragment, made)]) pending
      (later ++ made.calls) := by
  have noted : rest ++ (draft.extend fragment made).fixups =
      (rest ++ draft.fixups) ++ Entry.sites (.body defined.length) made.entries := by
    rw [← tracks.size, List.append_assoc]
    rfl
  refine ⟨?_, tracks.numbers_extend fresh made, ?_, ?_, ?_, ?_, ?_, ?_, ?_⟩
  · simp [Draft.extend, tracks.size]
  · simp [Draft.extend, tracks.expansions, List.countP_append]
  · exact tracks.left.imp fun _ _ calls => calls.append fragment made
  · have more := List.rel_append (tracks.noted.imp fun _ _ calls => calls.append fragment made)
      (defined.calls_sites top fragment made)
    rwa [← tracks.size] at more
  · rw [noted]
    refine List.nodup_append.mpr ⟨tracks.distinct, Entry.nodup_sites ?_ _, ?_⟩
    · intro first second same
      exact (Place.body.inj same).2
    · rintro place listed _ added rfl
      exact tracks.not_mem_sites listed _ added
  · intro place listed
    rw [noted] at listed
    rw [tracks.held?_extend, Defined.held?_sketch_append]
    rcases List.mem_append.mp listed with old | new
    · rw [tracks.waits place old]
    · obtain ⟨entry, inside, _⟩ := mem_sites_body_iff.mp new
      rw [held?_eq_none_of_inRoutine? tracks.size inside,
        held?_eq_none_of_inRoutine? (defined.length_sketch top) inside]
  · intro place outside
    rw [noted, List.mem_append, not_or] at outside
    exact tracks.settled_extend fragment made outside.1 outside.2
  · intro place outside callee calls
    rw [noted, List.mem_append, not_or] at outside
    obtain ⟨placed, found⟩ := calls
    rw [Defined.held?_sketch_append] at found
    rcases Option.or_eq_some_iff.mp found with old | ⟨_, new⟩
    · have member := tracks.known place outside.1 callee ⟨placed, old⟩
      rw [Defined.fragments_append]
      exact List.mem_append_left _ member
    · exact absurd (mem_sites_body_iff.mpr ⟨_, new, rfl⟩) outside.2

/-- When no place is noted, the routines have all their lines. -/
theorem routines_eq (tracks : Tracks top draft [] defined [] []) :
    draft.fixups = [] ∧ draft.routines = defined.routines.map (List.map .line) ∧
      draft.top = top.map (Entry.settle defined.number) := by
  have none : draft.fixups = [] := List.forall₂_nil_right_iff.mp tracks.noted
  have everywhere (place : Place) : draft.held? place =
      ((defined.sketch top).held? place).map (Entry.settle defined.number) :=
    tracks.settled place (by simp [none])
  have settled : defined.routines.map (List.map Entry.line) =
      defined.map fun entry => entry.2.entries.map (Entry.settle defined.number) := by
    simp [Defined.routines, Body.settle_entries]
  refine ⟨none, ?_, ?_⟩
  · rw [settled]
    apply List.ext_getElem (by simpa using tracks.size)
    intro routine left right
    apply List.ext_getElem?
    intro position
    have within : routine < defined.length := by simpa using right
    simpa [held?, Defined.sketch, left, within] using everywhere (.body routine position)
  · apply List.ext_getElem?
    intro position
    rw [List.getElem?_map]
    exact everywhere (.top position)

end Draft.Tracks

end MaskLayout.Cif
