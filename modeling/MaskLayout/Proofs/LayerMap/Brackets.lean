import MaskLayout.Proofs.LayerMap

/-!
Three layer maps around one another, put in brackets in two ways. A table keeps a name that the next
one does not know, and so the two ways can part: composed from the inside, the last table still takes
hold of such a name, but composed from the outside it has already been asked. Nothing else sets them
apart. So maps that know what comes up to them compose to the same map in both ways, or fail in both.
-/
namespace MaskLayout.LayerMap

/-- A name that comes out of one table, is not known to the next one, and is sent elsewhere by the
last. -/
inductive Slips : LayerMap → LayerMap → LayerMap → String → Prop where
  | tables {inner middle outer : NameTable (Option String)} {layer name : String}
      {destination : Option String} (sent : inner.find? layer = some (some name))
      (unknown : middle.find? name = none) (known : outer.find? name = some destination)
      (moved : destination ≠ some name) : Slips (.table inner) (.table middle) (.table outer) name

/-- The names that slip, in the order of the layers that are sent to them. -/
def slipping (inner middle outer : LayerMap) : List String :=
  match inner, middle, outer with
  | .table inner, .table middle, .table outer =>
    (inner.values.filterMap id).filter fun name =>
      middle.find? name = none ∧ outer.find? name ≠ none ∧ outer.find? name ≠ some (some name)
  | _, _, _ => []

private theorem mem_slipping_iff {inner middle outer : LayerMap} {name : String} :
    name ∈ slipping inner middle outer ↔ Slips inner middle outer name := by
  fun_cases slipping inner middle outer with
  | case1 inner middle outer =>
    simp only [NameTable.values, List.mem_filter, List.mem_filterMap, List.mem_map, id_eq,
      decide_eq_true_eq]
    constructor
    · rintro ⟨⟨_, ⟨⟨layer, _⟩, listed, rfl⟩, rfl⟩, unknown, known, moved⟩
      obtain ⟨destination, found⟩ := Option.ne_none_iff_exists'.mp known
      exact .tables (NameTable.mem_entries_iff.mp listed) unknown found fun same =>
        moved (found.trans (congrArg some same))
    · intro slips
      cases slips with
      | @tables _ _ _ layer _ destination sent unknown known moved =>
        refine ⟨⟨_, ⟨(layer, _), NameTable.mem_entries_iff.mpr sent, rfl⟩, rfl⟩, unknown, ?_⟩
        simpa [known] using moved
  | case2 inner middle outer other =>
    constructor
    · intro listed
      cases listed
    · intro slips
      cases slips with
      | tables => exact absurd rfl (other _ _ _ rfl rfl)

instance (inner middle outer : LayerMap) : Decidable (∀ name, ¬ Slips inner middle outer name) :=
  decidable_of_iff (slipping inner middle outer = []) <| by
    simp only [List.eq_nil_iff_forall_not_mem, mem_slipping_iff]

/-- A destination goes to the same place in both ways unless the middle table misses what the outer
one moves. -/
theorem sendOn_map_eq_iff {middle outer : NameTable (Option String)} {destination : Option String} :
    sendOn outer (sendOn middle destination) = sendOn (middle.map (sendOn outer)) destination ↔
      ∀ name, destination = some name → middle.find? name = none →
        ∀ last, outer.find? name = some last → last = some name := by
  cases destination with
  | none => simp [sendOn]
  | some name =>
    simp only [sendOn, NameTable.find?_map, Option.some.injEq, forall_eq']
    cases middle.find? name with
    | some between => simp [sendOn]
    | none =>
      cases known : outer.find? name with
      | none => simp [known]
      | some last => simp [known]

private theorem map_sendOn_eq_iff {inner middle outer : NameTable (Option String)} :
    (inner.map (sendOn middle)).map (sendOn outer) = inner.map (sendOn (middle.map (sendOn outer))) ↔
      ∀ name, ¬ Slips (.table inner) (.table middle) (.table outer) name := by
  have joined : (inner.map (sendOn middle)).map (sendOn outer) =
      inner.map fun destination => sendOn outer (sendOn middle destination) := by
    simp [NameTable.map, Function.comp_def]
  rw [joined, NameTable.map_eq_map_iff]
  constructor
  · intro same name slips
    cases slips with
    | tables sent unknown known moved =>
      exact moved (sendOn_map_eq_iff.mp (same _ _ sent) name rfl unknown _ known)
  · intro firm layer destination found
    rw [sendOn_map_eq_iff]
    rintro name rfl unknown last known
    exact Decidable.byContradiction fun moved => firm name (.tables found unknown known moved)

/-- A table around a constant map sends its one layer on. -/
theorem constant_compose_table {entries : NameTable (Option String)} {source : Option String}
    {composed : LayerMap} (fits : (constant source).compose (table entries) = .ok composed) :
    composed = constant (sendOn entries source) := by
  cases source with
  | none => exact (Except.ok.inj fits).symm
  | some name =>
    cases found : entries.find? name with
    | none => simp [compose, found] at fits
    | some destination =>
      simp only [compose, found, Except.ok.injEq] at fits
      simp [← fits, sendOn, found]

/-- Where both ways of composing three maps succeed, they give the same map exactly if no name slips
through. -/
theorem compose_assoc_iff {inner middle outer lower upper first second : LayerMap}
    (below : inner.compose middle = .ok lower) (start : lower.compose outer = .ok first)
    (above : middle.compose outer = .ok upper) (finish : inner.compose upper = .ok second) :
    first = second ↔ ∀ name, ¬ Slips inner middle outer name := by
  have firm (same : first = second) (apart : ∀ name, ¬ Slips inner middle outer name) :
      first = second ↔ ∀ name, ¬ Slips inner middle outer name := iff_of_true same apart
  cases outer with
  | identity =>
    rw [compose_identity] at start above
    cases Except.ok.inj start
    cases Except.ok.inj above
    exact firm (Except.ok.inj (below.symm.trans finish)) fun name slips => by cases slips
  | constant destination =>
    rw [compose_constant] at start above
    cases Except.ok.inj start
    cases Except.ok.inj above
    rw [compose_constant] at finish
    exact firm (Except.ok.inj finish) fun name slips => by cases slips
  | table outer =>
    cases middle with
    | identity =>
      rw [compose_identity] at below
      cases Except.ok.inj below
      cases Except.ok.inj above
      exact firm (Except.ok.inj (start.symm.trans finish)) fun name slips => by cases slips
    | constant source =>
      rw [compose_constant] at below
      cases Except.ok.inj below
      cases constant_compose_table start
      cases constant_compose_table above
      rw [compose_constant] at finish
      exact firm (Except.ok.inj finish) fun name slips => by cases slips
    | table middle =>
      cases Except.ok.inj above
      cases inner with
      | identity =>
        cases Except.ok.inj below
        exact firm (Except.ok.inj (start.symm.trans finish)) fun name slips => by cases slips
      | constant source =>
        cases constant_compose_table below
        cases constant_compose_table start
        cases constant_compose_table finish
        -- The middle table knows the one layer, since it composed with the map that sends all there.
        have same : sendOn outer (sendOn middle source) = sendOn (middle.map (sendOn outer)) source := by
          rw [sendOn_map_eq_iff]
          rintro name rfl unknown
          simp [compose, unknown] at below
        exact firm (congrArg constant same) fun name slips => by cases slips
      | table inner =>
        cases Except.ok.inj below
        cases Except.ok.inj start
        cases Except.ok.inj finish
        rw [LayerMap.table.injEq]
        exact map_sendOn_eq_iff

/-- What a map sends layers to. The identity renames nothing, and so it lists nothing. -/
def destinations : LayerMap → List (Option String)
  | identity => []
  | constant destination => [destination]
  | table entries => entries.values

/-- Every layer that a map sends something to is known to the map around it. Only a table can fail to
know a layer. -/
def Suits (below above : LayerMap) : Prop :=
  ∀ destination ∈ below.destinations, ∀ name ∈ destination, (above.lookup name).isOk

instance (below above : LayerMap) : Decidable (below.Suits above) :=
  inferInstanceAs (Decidable (∀ destination ∈ below.destinations, ∀ name ∈ destination, _))

/-- The one layer of a constant map comes through the identity to a table that does not know it. What
the identity lets through is not listed among its destinations. -/
inductive Strands : LayerMap → LayerMap → LayerMap → String → Prop where
  | through {entries : NameTable (Option String)} {name : String}
      (unknown : entries.find? name = none) :
      Strands (.constant (some name)) .identity (.table entries) name

private theorem identity_compose (above : LayerMap) : identity.compose above = .ok above := by
  cases above <;> rfl

private theorem lookup_table_eq_ok_iff {entries : NameTable (Option String)} {name : String}
    {destination : Option String} :
    (table entries).lookup name = .ok destination ↔ entries.find? name = some destination := by
  cases found : entries.find? name with
  | none => simp [lookup, found]
  | some other => simp [lookup, found]

private theorem mem_destinations_of_lookup {map : LayerMap} {name : String} {destination : Option String}
    (renames : map ≠ .identity) (known : map.lookup name = .ok destination) :
    destination ∈ map.destinations := by
  cases map with
  | identity => exact absurd rfl renames
  | constant other =>
    cases Except.ok.inj known
    exact List.mem_singleton_self _
  | table entries =>
    have listed := NameTable.mem_entries_iff.mpr (lookup_table_eq_ok_iff.mp known)
    exact List.mem_map.mpr ⟨(name, destination), listed, rfl⟩

/-- Where two maps come to a constant one, its layer is one that the outer map sends something to,
unless that is the identity. -/
theorem mem_destinations_of_compose {below above : LayerMap} {source : Option String}
    (renames : above ≠ .identity) (fits : below.compose above = .ok (.constant source)) :
    source = none ∨ source ∈ above.destinations := by
  cases above with
  | identity => exact absurd rfl renames
  | constant destination =>
    rw [compose_constant] at fits
    cases Except.ok.inj fits
    exact .inr (List.mem_singleton_self _)
  | table entries =>
    cases below with
    | identity => cases Except.ok.inj fits
    | table inner => cases Except.ok.inj fits
    | constant inner =>
      cases inner with
      | none =>
        cases Except.ok.inj fits
        exact .inl rfl
      | some name =>
        simp only [compose] at fits
        cases found : entries.find? name with
        | none => simp [found] at fits
        | some destination =>
          simp only [found, Except.ok.injEq, constant.injEq] at fits
          subst fits
          exact .inr (mem_destinations_of_lookup renames (lookup_table_eq_ok_iff.mpr found))

/-- A composed map knows a name that is known all the way. -/
theorem exists_lookup_of_compose {below above composed : LayerMap} {name : String}
    {between : Option String} (fits : below.compose above = .ok composed)
    (known : below.lookup name = .ok between) (onward : ∀ middle ∈ between, (above.lookup middle).isOk) :
    ∃ result, composed.lookup name = .ok result := by
  cases between with
  | some middle =>
    obtain ⟨result, found⟩ := exists_eq_ok_iff.mpr (onward middle rfl)
    exact ⟨result, passes_compose fits known found⟩
  | none =>
    by_cases claimed : ∃ layer, above = .constant (some layer)
    · obtain ⟨layer, rfl⟩ := claimed
      rw [compose_constant] at fits
      cases Except.ok.inj fits
      exact ⟨some layer, rfl⟩
    · exact ⟨none, passes_compose fits known ⟨rfl, fun layer same => claimed ⟨layer, same⟩⟩⟩

namespace Suits

variable {inner middle outer : LayerMap}

private theorem lookup {name : String} (suits : inner.Suits outer)
    (member : some name ∈ inner.destinations) :
    ∃ result, outer.lookup name = .ok result :=
  exists_eq_ok_iff.mpr (suits (some name) member name rfl)

private theorem exists_compose (suits : inner.Suits outer) :
    ∃ composed, inner.compose outer = .ok composed := by
  refine LayerMap.exists_compose fun source same => suits.lookup ?_
  rw [same]
  exact List.mem_singleton_self _

/-- Nothing slips past a table that knows all that comes up to it. -/
theorem not_slips (suits : inner.Suits middle) (name : String) : ¬ Slips inner middle outer name := by
  intro slips
  cases slips with
  | @tables inner middle _ layer _ _ sent unknown known moved =>
    have listed : some name ∈ (table inner).destinations :=
      mem_destinations_of_lookup (by simp) (lookup_table_eq_ok_iff.mpr sent)
    obtain ⟨result, found⟩ := suits.lookup listed
    exact Option.some_ne_none result ((lookup_table_eq_ok_iff.mp found).symm.trans unknown)

/-- Three maps of which the middle one is not the identity compose in both ways, to one map. -/
theorem compose_assoc (below : inner.Suits middle) (above : middle.Suits outer)
    (renames : middle ≠ .identity) : ∃ whole,
      inner.compose middle >>= (·.compose outer) = .ok whole ∧
        middle.compose outer >>= inner.compose = .ok whole := by
  obtain ⟨lower, within⟩ := below.exists_compose
  obtain ⟨upper, around⟩ := above.exists_compose
  have start : ∃ first, lower.compose outer = .ok first := by
    refine LayerMap.exists_compose fun source same => ?_
    rw [same] at within
    rcases mem_destinations_of_compose renames within with gone | listed
    · cases gone
    · exact above.lookup listed
  have finish : ∃ second, inner.compose upper = .ok second := by
    refine LayerMap.exists_compose fun source same => ?_
    have listed : some source ∈ inner.destinations := by
      rw [same]
      exact List.mem_singleton_self _
    obtain ⟨between, known⟩ := below.lookup listed
    exact exists_lookup_of_compose around known (above _ (mem_destinations_of_lookup renames known))
  obtain ⟨first, start⟩ := start
  obtain ⟨second, finish⟩ := finish
  obtain rfl : first = second := (compose_assoc_iff within start around finish).mpr below.not_slips
  exact ⟨first, by rw [within]; exact start, by rw [around]; exact finish⟩

end Suits

/-- Maps that know what comes up to them compose to the same map in both ways, unless the one layer of
a constant map reaches an outer table through the identity and is not known there: then both ways fail
for that layer. -/
theorem compose_assoc_of_suits {inner middle outer : LayerMap} (below : inner.Suits middle)
    (above : middle.Suits outer) :
    ((∀ name, ¬ Strands inner middle outer name) → ∃ whole,
      inner.compose middle >>= (·.compose outer) = .ok whole ∧
        middle.compose outer >>= inner.compose = .ok whole) ∧
    ∀ name, Strands inner middle outer name →
      inner.compose middle >>= (·.compose outer) = .error (.unknownLayer name) ∧
        middle.compose outer >>= inner.compose = .error (.unknownLayer name) := by
  by_cases renames : middle = .identity
  · -- Both ways skip the identity, and it is up to the maps on its two sides.
    have both : inner.compose middle >>= (·.compose outer) = inner.compose outer ∧
        middle.compose outer >>= inner.compose = inner.compose outer := by
      rw [renames, compose_identity, identity_compose]
      exact ⟨rfl, rfl⟩
    rw [both.1, both.2]
    subst renames
    constructor
    · intro kept
      obtain ⟨whole, fits⟩ : ∃ whole, inner.compose outer = .ok whole := by
        refine exists_compose fun source same => ?_
        cases outer with
        | identity => exact ⟨some source, rfl⟩
        | constant destination => exact ⟨destination, rfl⟩
        | table entries =>
          cases found : entries.find? source with
          | none => exact absurd (same ▸ .through found) (kept source)
          | some destination => exact ⟨destination, lookup_table_eq_ok_iff.mpr found⟩
      exact ⟨whole, fits, fits⟩
    · intro name strands
      cases strands with
      | through unknown => simp [compose, unknown]
  · refine ⟨fun _ => below.compose_assoc above renames, fun name strands => ?_⟩
    cases strands with
    | through => exact absurd rfl renames

/-- Layers as they are drawn. -/
def drawn : LayerMap := ofList [("m1", some "metal"), ("poly", some "gate"), ("tmp", none)]

/-- Layers as they are made: gates are left out. -/
def made : LayerMap := ofList [("gate", none), ("metal", some "top"), ("rest", some "m1")]

/-- Layers as they are numbered. -/
def numbered : LayerMap := ofList [("m1", some "2"), ("top", some "1")]

/-- Tables compose in both ways, and a constant map in none of them. -/
theorem numbered_assoc :
    (drawn.compose made >>= (·.compose numbered) =
        .ok (ofList [("m1", some "1"), ("poly", none), ("tmp", none)]) ∧
      made.compose numbered >>= drawn.compose =
        .ok (ofList [("m1", some "1"), ("poly", none), ("tmp", none)])) ∧
    compose (.constant (some "poly")) .identity >>= (·.compose numbered) = .error (.unknownLayer "poly") ∧
      compose .identity numbered >>= compose (.constant (some "poly")) = .error (.unknownLayer "poly") := by
  constructor
  · have evaluated : drawn.compose made >>= (·.compose numbered) =
        .ok (ofList [("m1", some "1"), ("poly", none), ("tmp", none)]) := by
      decide +kernel
    obtain ⟨whole, first, second⟩ := (compose_assoc_of_suits (by decide +kernel : drawn.Suits made)
      (by decide +kernel : made.Suits numbered)).1 fun name strands => by cases strands
    cases Except.ok.inj (evaluated.symm.trans first)
    exact ⟨first, second⟩
  · exact (compose_assoc_of_suits (by decide +kernel) (by decide +kernel)).2 "poly"
      (.through (by decide +kernel))

/-- Known names alone do not make three maps compose. -/
theorem compose_assoc_fails : ¬ ∀ inner middle outer : LayerMap, inner.Suits middle → middle.Suits outer →
    ∃ whole, inner.compose middle >>= (·.compose outer) = .ok whole ∧
      middle.compose outer >>= inner.compose = .ok whole := by
  intro law
  obtain ⟨whole, composed, _⟩ := law (.constant (some "q")) .identity (.rename "s" "t")
    (by decide) (by decide)
  cases composed

end MaskLayout.LayerMap
