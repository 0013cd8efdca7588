/-!
Tables keyed by names and kept in order of the names. Every name has at most one entry, so two
tables with the same entries are equal.
-/
namespace MaskLayout

structure NameTable (α : Type) where
  entries : List (String × α)
  sorted : entries.Pairwise (fun a b => a.1 < b.1)
  deriving DecidableEq

namespace NameTable

variable {α β : Type}

def empty : NameTable α := ⟨[], .nil⟩

instance : Inhabited (NameTable α) := ⟨empty⟩

/-- Entries with the value at a name replaced, or put in its order. -/
def updated (name : String) (change : Option α → α) :
    List (String × α) → List (String × α)
  | [] => [(name, change none)]
  | (key, value) :: rest =>
    if name = key then (key, change (some value)) :: rest
    else if name < key then (name, change none) :: (key, value) :: rest
    else (key, value) :: updated name change rest

private theorem updated_name {name : String} {change : Option α → α} {source : List (String × α)}
    {entry : String × α} (member : entry ∈ updated name change source) :
    entry.1 = name ∨ ∃ old ∈ source, entry.1 = old.1 := by
  induction source with
  | nil => simp [updated] at member; simp [member]
  | cons head rest ih =>
    unfold updated at member
    split at member
    · rcases List.mem_cons.mp member with same | tail
      · exact .inr ⟨head, by simp, by simp [same]⟩
      · exact .inr ⟨entry, by simp [tail], rfl⟩
    · split at member
      · rcases List.mem_cons.mp member with same | tail
        · exact .inl (by simp [same])
        · exact .inr ⟨entry, tail, rfl⟩
      · rcases List.mem_cons.mp member with same | tail
        · exact .inr ⟨head, by simp, by simp [same]⟩
        · rcases ih tail with same | ⟨old, present, same⟩
          · exact .inl same
          · exact .inr ⟨old, by simp [present], same⟩

private theorem lt_of_ne_of_not_lt {a b : String} (different : a ≠ b) (reverse : ¬ a < b) : b < a :=
  Decidable.byContradiction fun h => different (String.le_antisymm h reverse)

private theorem updated_sorted (name : String) (change : Option α → α) {source : List (String × α)}
    (sorted : source.Pairwise (fun a b => a.1 < b.1)) :
    (updated name change source).Pairwise (fun a b => a.1 < b.1) := by
  induction source with
  | nil => simp [updated]
  | cons head rest ih =>
    obtain ⟨below, tail⟩ := List.pairwise_cons.mp sorted
    unfold updated
    split
    · exact List.pairwise_cons.mpr ⟨below, tail⟩
    · rename_i different
      split
      · rename_i before
        refine List.pairwise_cons.mpr ⟨fun entry member => ?_, sorted⟩
        rcases List.mem_cons.mp member with same | later
        · simpa [same] using before
        · exact String.lt_trans before (below entry later)
      · rename_i reverse
        refine List.pairwise_cons.mpr ⟨fun entry member => ?_, ih tail⟩
        rcases updated_name member with same | ⟨old, present, same⟩
        · simpa [same] using lt_of_ne_of_not_lt different reverse
        · simpa [same] using below old present

/-- Replaces the value at a name, `none` standing for the value of an absent one. -/
def update (table : NameTable α) (name : String) (change : Option α → α) : NameTable α :=
  ⟨updated name change table.entries, updated_sorted name change table.sorted⟩

def insert (table : NameTable α) (name : String) (value : α) : NameTable α :=
  table.update name fun _ => value

/-- Of entries with the same name the last one stays. -/
def ofList (entries : List (String × α)) : NameTable α :=
  entries.foldl (fun table entry => table.insert entry.1 entry.2) empty

def find? (table : NameTable α) (name : String) : Option α :=
  (table.entries.find? (·.1 = name)).map (·.2)

def names (table : NameTable α) : List String := table.entries.map (·.1)

def values (table : NameTable α) : List α := table.entries.map (·.2)

def map (table : NameTable α) (change : α → β) : NameTable β where
  entries := table.entries.map fun entry => (entry.1, change entry.2)
  sorted := List.pairwise_map.mpr table.sorted

@[simp] theorem find?_empty (name : String) : (empty : NameTable α).find? name = none := rfl

theorem find?_eq_none_of_lt {name : String} {entries : List (String × α)}
    (below : ∀ entry ∈ entries, name < entry.1) : entries.find? (·.1 = name) = none := by
  apply List.find?_eq_none.mpr
  intro entry listed same
  simp only [decide_eq_true_eq] at same
  exact String.lt_irrefl name (by simpa [same] using below entry listed)

private theorem find_updated (name other : String) (change : Option α → α)
    {source : List (String × α)} (sorted : source.Pairwise (fun a b => a.1 < b.1)) :
    ((updated name change source).find? (·.1 = other)).map (·.2) =
      if other = name then some (change ((source.find? (·.1 = name)).map (·.2)))
      else (source.find? (·.1 = other)).map (·.2) := by
  induction source with
  | nil =>
    by_cases same : other = name
    · simp [updated, same]
    · simp [updated, same, Ne.symm same]
  | cons head rest ih =>
    obtain ⟨below, tail⟩ := List.pairwise_cons.mp sorted
    unfold updated
    split
    · rename_i same
      subst same
      by_cases found : other = head.1
      · simp [found]
      · simp [found, Ne.symm found]
    · rename_i different
      split
      · rename_i before
        have absent : rest.find? (·.1 = name) = none :=
          find?_eq_none_of_lt fun entry member => String.lt_trans before (below entry member)
        by_cases found : name = other
        · subst found
          simp [Ne.symm different, absent]
        · simp [found, Ne.symm found]
      · simp only [List.find?_cons]
        by_cases found : head.1 = other
        · subst found
          simp [Ne.symm different]
        · simp [found, Ne.symm different, ih tail]

/-- An update is seen at its own name only. -/
theorem find?_update (table : NameTable α) (name other : String) (change : Option α → α) :
    (table.update name change).find? other =
      if other = name then some (change (table.find? name)) else table.find? other :=
  find_updated name other change table.sorted

private theorem updated_eq_of_find (name : String) (change : Option α → α)
    {source : List (String × α)} (sorted : source.Pairwise (fun a b => a.1 < b.1)) :
    updated name change source =
      updated name (fun _ => change ((source.find? (·.1 = name)).map (·.2))) source := by
  induction source with
  | nil => rfl
  | cons head rest ih =>
    obtain ⟨below, tail⟩ := List.pairwise_cons.mp sorted
    by_cases same : name = head.1
    · simp [updated, same]
    · by_cases before : name < head.1
      · have absent : rest.find? (·.1 = name) = none :=
          find?_eq_none_of_lt fun entry member => String.lt_trans before (below entry member)
        simp [updated, same, before, Ne.symm same, absent]
      · simp only [updated, same, before, ↓reduceIte, List.find?_cons, Ne.symm same, decide_false]
        rw [ih tail]

/-- An update puts in what is made of the value that was there. -/
theorem update_eq_insert (table : NameTable α) (name : String) (change : Option α → α) :
    table.update name change = table.insert name (change (table.find? name)) := by
  unfold insert update
  congr 1
  exact updated_eq_of_find name change table.sorted

theorem find?_map (table : NameTable α) (change : α → β) (name : String) :
    (table.map change).find? name = (table.find? name).map change := by
  simp [map, find?, List.find?_map, Function.comp_def]

private theorem updated_map (name : String) {change : Option α → α} {other : Option β → β}
    {image : α → β} (each : ∀ value, image (change value) = other (value.map image))
    (source : List (String × α)) :
    (updated name change source).map (fun entry => (entry.1, image entry.2)) =
      updated name other (source.map fun entry => (entry.1, image entry.2)) := by
  induction source with
  | nil => simp [updated, each]
  | cons head rest ih =>
    simp only [updated, List.map_cons]
    split
    · simp [each]
    · split
      · simp [each]
      · simp [ih]

/-- A change of all values after an update, or before it. -/
theorem map_update {table : NameTable α} {name : String} {change : Option α → α}
    {other : Option β → β} {image : α → β}
    (each : ∀ value, image (change value) = other (value.map image)) :
    (table.update name change).map image = (table.map image).update name other := by
  unfold update map
  congr 1
  exact updated_map name each table.entries

theorem mem_entries_iff {table : NameTable α} {name : String} {value : α} :
    (name, value) ∈ table.entries ↔ table.find? name = some value := by
  obtain ⟨entries, sorted⟩ := table
  unfold find?
  induction entries with
  | nil => simp
  | cons head rest ih =>
    obtain ⟨below, tail⟩ := List.pairwise_cons.mp sorted
    by_cases found : head.1 = name
    · have absent : (name, value) ∉ rest := fun later =>
        String.lt_irrefl name (by simpa [found] using below _ later)
      simp [found, absent, Prod.ext_iff, eq_comm]
    · have other : (name, value) ≠ head := fun same => found (by rw [← same])
      simp [found, other, ih tail]

/-- Two changes do the same to a table if they do the same to every value in it. -/
theorem map_eq_map_iff {table : NameTable α} {change other : α → β} :
    table.map change = table.map other ↔
      ∀ name value, table.find? name = some value → change value = other value := by
  constructor
  · intro same name value found
    have both := congrArg (·.find? name) same
    simpa [find?_map, found] using both
  · intro each
    unfold map
    congr 1
    refine List.map_congr_left fun entry listed => ?_
    rw [each entry.1 entry.2 (mem_entries_iff.mp listed)]

end NameTable

end MaskLayout
