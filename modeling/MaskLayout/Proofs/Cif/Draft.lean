import Mathlib.Data.List.Sigma
import MaskLayout.Cif.Draft
import MaskLayout.Proofs.Cif.Outline

namespace MaskLayout.Cif

variable {K : Type}

namespace Entry

/-- The fragment that an entry waits for. -/
def callee? : Entry K → Option Fragment
  | pending fragment _ => some fragment
  | line _ | blank => none

/-- An entry when the fragments have their numbers. -/
def settle (number : Fragment → Nat) : Entry K → Entry K
  | pending fragment transform => .line (.call (number fragment) transform)
  | line written => line written
  | blank => blank

private theorem sites_cons (place : Nat → Place) (entry : Entry K) (rest : List (Entry K)) :
    sites place (entry :: rest) = (if entry.isPending then [place 0] else []) ++
      sites (fun position => place (position + 1)) rest := by
  have later : sites place (entry :: rest) = (if entry.isPending then [place 0] else []) ++
      (((rest.zipIdx 1).filter fun other => other.1.isPending).map fun other => place other.2) := by
    cases waits : entry.isPending <;> simp [sites, waits]
  rw [later, sites, List.zipIdx_succ, List.filter_map, List.map_map]
  rfl

/-- The sites are those of the calls, in the same order. -/
theorem forall₂_sites (place : Nat → Place) (entries : List (Entry K)) :
    List.Forall₂ (fun site fragment => ∃ position transform, site = place position ∧
      entries[position]? = some (.pending fragment transform))
      (sites place entries) (entries.filterMap callee?) := by
  induction entries generalizing place with
  | nil => exact .nil
  | cons entry rest ih =>
    have later : List.Forall₂ (fun site fragment => ∃ position transform, site = place position ∧
        (entry :: rest)[position]? = some (.pending fragment transform))
        (sites (fun position => place (position + 1)) rest) (rest.filterMap callee?) := by
      refine (ih fun position => place (position + 1)).imp fun site fragment waits => ?_
      obtain ⟨position, transform, same, found⟩ := waits
      exact ⟨position + 1, transform, same, found⟩
    rw [sites_cons]
    cases entry with
    | pending fragment transform => exact .cons ⟨0, transform, rfl, rfl⟩ later
    | line written => exact later
    | blank => exact later

private theorem mem_sites_iff {place : Nat → Place} {entries : List (Entry K)} {site : Place} :
    site ∈ sites place entries ↔ ∃ position entry, entries[position]? = some entry ∧
      entry.isPending = true ∧ place position = site := by
  simp only [sites, List.mem_map, List.mem_filter, Prod.exists, List.mk_mem_zipIdx_iff_getElem?]
  grind

theorem sites_of_lines (place : Nat → Place) (lines : List (Line K)) :
    sites place (lines.map .line) = [] := by
  apply List.eq_nil_iff_forall_not_mem.mpr
  intro site listed
  obtain ⟨position, entry, found, waits, _⟩ := mem_sites_iff.mp listed
  obtain ⟨written, _, rfl⟩ := List.mem_map.mp (List.mem_of_getElem? found)
  cases waits

theorem nodup_sites {place : Nat → Place} (apart : Function.Injective place)
    (entries : List (Entry K)) : (sites place entries).Nodup := by
  have split : sites place entries =
      ((entries.zipIdx.filter fun entry => entry.1.isPending).map Prod.snd).map place :=
    (List.map_map).symm
  rw [split]
  apply List.Nodup.map apart
  exact (List.filter_sublist.map _).nodup (List.nodup_zipIdx_map_snd entries)

end Entry

/-- What a body is drafted as becomes its lines. -/
theorem Body.settle_entries (body : Body K) (number : Fragment → Nat) :
    body.entries.map (Entry.settle number) = (body.lines number).map .line := by
  have drawn (runs : List (Run K)) : ((runs.flatMap Run.lines).map Entry.line).map
      (Entry.settle number) = (runs.flatMap Run.lines).map .line := by
    rw [List.map_map]
    rfl
  rw [entries, lines, List.map_append, List.map_append, drawn,
    List.map_flatMap (g := Edge.entries), List.map_flatMap (g := Edge.lines number)]
  congr 2
  funext edge
  cases edge with
  | call fragment transform => rfl
  | inline runs => exact drawn runs

theorem Body.filterMap_callee? (body : Body K) :
    body.entries.filterMap Entry.callee? = body.calls := by
  have silent (runs : List (Run K)) :
      ((runs.flatMap Run.lines).map Entry.line).filterMap Entry.callee? = [] := by
    simp [List.filterMap_map, Entry.callee?, Function.comp_def]
  rw [entries, calls, List.filterMap_append, silent, List.nil_append, List.filterMap_flatMap]
  congr 1
  funext edge
  cases edge with
  | call fragment transform => rfl
  | inline runs => exact silent runs

namespace Draft

theorem held?_put (draft : Draft K) (place other : Place) (entry : Entry K) :
    (draft.put place entry).held? other =
      if other = place then (draft.held? other).map fun _ => entry else draft.held? other := by
  cases place <;> cases other <;> simp [put, held?, List.getElem?_set, List.getElem?_modify] <;> grind

@[simp] theorem length_routines_put (draft : Draft K) (place : Place) (entry : Entry K) :
    (draft.put place entry).routines.length = draft.routines.length := by
  cases place with
  | top position => rfl
  | body routine position => exact List.length_modify _ _ _

@[simp] theorem numbers_put (draft : Draft K) (place : Place) (entry : Entry K) :
    (draft.put place entry).numbers = draft.numbers := by
  cases place <;> rfl

@[simp] theorem fixups_put (draft : Draft K) (place : Place) (entry : Entry K) :
    (draft.put place entry).fixups = draft.fixups := by
  cases place <;> rfl

@[simp] theorem expansions_put (draft : Draft K) (place : Place) (entry : Entry K) :
    (draft.put place entry).expansions = draft.expansions := by
  cases place <;> rfl

@[simp] theorem passes_put (draft : Draft K) (place : Place) (entry : Entry K) :
    (draft.put place entry).passes = draft.passes := by
  cases place <;> rfl

theorem put_put (draft : Draft K) (place : Place) (first second : Entry K) :
    (draft.put place first).put place second = draft.put place second := by
  cases place <;> simp [put, List.modify_modify_eq, Function.comp_def]

/-- A draft with one more routine. -/
def extend (draft : Draft K) (fragment : Fragment) (made : Body K) : Draft K where
  routines := draft.routines ++ [made.entries]
  top := draft.top
  numbers := (fragment, draft.routines.length + 1) :: draft.numbers
  fixups := draft.fixups ++ Entry.sites (.body draft.routines.length) made.entries
  expansions := draft.expansions + made.edges.countP Edge.isInline
  passes := draft.passes

/-- What is put in a draft does not depend on what is defined meanwhile. -/
theorem extend_put {draft : Draft K} {place : Place} (inside : draft.held? place ≠ none)
    (entry : Entry K) (fragment : Fragment) (made : Body K) :
    (draft.put place entry).extend fragment made = (draft.extend fragment made).put place entry := by
  cases place with
  | top position => rfl
  | body routine position =>
    have within : routine < draft.routines.length := by
      by_contra beyond
      simp [held?, List.getElem?_eq_none (Nat.le_of_not_lt beyond)] at inside
    have grown : draft.routines.modify routine (fun entries => entries.set position entry) ++
        [made.entries] = (draft.routines ++ [made.entries]).modify routine
          fun entries => entries.set position entry := by
      apply List.ext_getElem?
      intro index
      simp only [List.getElem?_modify, List.getElem?_append, List.length_modify]
      split
      · rfl
      · have apart : routine ≠ index := by omega
        simp [apart]
    simp [extend, put, grown]

theorem define_eq [Scalar K] (layout : Layout K) (settings : Settings K) (draft : Draft K)
    (fragment : Fragment) : draft.define layout settings fragment =
      (body layout settings fragment).map fun made =>
        (draft.routines.length + 1, draft.extend fragment made) := by
  unfold define
  cases body layout settings fragment with
  | error error => rfl
  | ok made => simp [allocate, install, extend, Except.map, pure, Except.pure]

/-- What a place holds if it is in one routine. -/
def inRoutine? (routine : Nat) (entries : List (Entry K)) : Place → Option (Entry K)
  | .top _ => none
  | .body other position => if other = routine then entries[position]? else none

theorem mem_sites_body_iff {routine : Nat} {entries : List (Entry K)} {place : Place} :
    place ∈ Entry.sites (.body routine) entries ↔
      ∃ entry, inRoutine? routine entries place = some entry ∧ entry.isPending = true := by
  rw [Entry.mem_sites_iff]
  constructor
  · rintro ⟨position, entry, found, waits, rfl⟩
    exact ⟨entry, by simpa [inRoutine?] using found, waits⟩
  · rintro ⟨entry, found, waits⟩
    cases place with
    | top position => cases found
    | body other position =>
      simp only [inRoutine?, Option.ite_none_right_eq_some] at found
      exact ⟨position, entry, found.2, waits, by rw [found.1]⟩

/-- With one more routine a place holds what it held, or an entry of the new routine. -/
theorem held?_of_append {draft extended : Draft K} {entries : List (Entry K)}
    (top : extended.top = draft.top) (grown : extended.routines = draft.routines ++ [entries])
    (place : Place) : extended.held? place =
      (draft.held? place).or (inRoutine? draft.routines.length entries place) := by
  cases place with
  | top position => simp [held?, inRoutine?, top]
  | body routine position =>
    simp only [held?, inRoutine?, grown, List.getElem?_append]
    split
    · rename_i within
      simp [Nat.ne_of_lt within]
    · rename_i beyond
      rw [List.getElem?_eq_none (Nat.le_of_not_lt beyond)]
      by_cases last : routine = draft.routines.length
      · simp [last]
      · have past : routine - draft.routines.length ≠ 0 := by omega
        simp [last, past]

/-- The new routine has places of its own. -/
theorem held?_eq_none_of_inRoutine? {draft : Draft K} {routine : Nat} {entries : List (Entry K)}
    {place : Place} {entry : Entry K} (size : draft.routines.length = routine)
    (found : inRoutine? routine entries place = some entry) : draft.held? place = none := by
  cases place with
  | top position => cases found
  | body other position =>
    simp only [inRoutine?, Option.ite_none_right_eq_some] at found
    simp [held?, found.1, ← size]

theorem held?_extend (draft : Draft K) (fragment : Fragment) (made : Body K) (place : Place) :
    (draft.extend fragment made).held? place =
      (draft.held? place).or (inRoutine? draft.routines.length made.entries place) := by
  apply held?_of_append
  · rfl
  · rfl

end Draft

end MaskLayout.Cif
