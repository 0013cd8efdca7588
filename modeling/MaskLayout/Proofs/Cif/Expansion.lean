import MaskLayout.Proofs.Cif.Ways

namespace MaskLayout.Cif

variable {K : Type} [Scalar K]

/-- A layer on which nothing with corners lies is known all the same to the map in effect. -/
def Charted (layout : Layout K) (root : Fragment) : Prop :=
  ∀ fragment, Within layout anywhere root fragment → ∀ node, layout.node fragment.node = .ok node →
    ∀ entry ∈ node.geometry.entries, (∀ polygon ∈ entry.2, polygon.isEmpty) →
      ∃ destination, fragment.layerMap.lookup entry.1 = .ok destination

/-- What a child stands for, if it makes no difference whether it is expanded in place. -/
structure Expandable (layout : Layout K) (around : LayerMap) (inner : Fragment) : Prop where
  veiled : Veiled layout inner
  associates : ∀ maps key node, Way layout anywhere inner.node maps key → layout.node key = .ok node →
    LayerMap.Associates (maps ++ [inner.layerMap]) around node.geometry.names

/-- Two fragments of one node below a child: with the layer maps from the child on only, and with the
map around the child as well. -/
structure Alongside (layout : Layout K) (around : LayerMap) (inner : Fragment)
    (bare whole : Fragment) : Prop where
  same : bare.node = whole.node
  way : ∃ maps, Way layout anywhere inner.node maps whole.node ∧
    LayerMap.composeAll (maps ++ [inner.layerMap]) = .ok bare.layerMap ∧
    LayerMap.composeAll (maps ++ [inner.layerMap] ++ [around]) = .ok whole.layerMap

variable {layout : Layout K} {around : LayerMap} {inner : Fragment}

theorem Charted.within {along : Reference K → Prop} {upper lower : Fragment}
    (charted : Charted layout upper) (within : Within layout along upper lower) :
    Charted layout lower :=
  fun fragment further => charted fragment (within.anyhow.trans further)

/-- A leaf can be expanded in place if its own map may be read before the one around it. -/
theorem Expandable.of_leaf {node : Node K} (found : layout.node inner.node = .ok node)
    (leaf : node.children = [])
    (associates : LayerMap.Associates [inner.layerMap] around node.geometry.names) :
    Expandable layout around inner where
  veiled fragment within _ := by
    have same : inner = fragment := within.induct rfl fun upper here other there child member => by
      rw [← here] at there
      cases Except.ok.inj (found.symm.trans there)
      simp [leaf] at member
    exact same ▸ ⟨node, found, by simp [leaf]⟩
  associates maps key other way there := by
    have start : maps = [] ∧ key = inner.node := by
      induction way generalizing other with
      | start => exact ⟨rfl, rfl⟩
      | step way found' member allowed stands ih =>
        obtain ⟨rfl, rfl⟩ := ih _ found'
        cases Except.ok.inj (found.symm.trans found')
        simp [leaf] at member
    obtain ⟨rfl, rfl⟩ := start
    cases Except.ok.inj (found.symm.trans there)
    exact associates

private theorem Marked.node {fragment : Fragment} (marked : Marked layout fragment) :
    ∃ node, layout.node fragment.node = .ok node := by
  obtain ⟨node, found, _⟩ := marked_iff.mp marked
  exact ⟨node, found⟩

namespace Alongside

variable {bare whole : Fragment}

private theorem start {reference : Reference K} {lower : Fragment}
    (stands : standsFor layout reference = .ok inner)
    (reached : reach layout around reference = .ok lower) :
    Alongside layout around inner inner lower := by
  have same := node_of_reach stands reached
  refine ⟨same.symm, [], same ▸ .start, LayerMap.composeAll_singleton inner.layerMap, ?_⟩
  exact composeAll_of_reach stands (LayerMap.composeAll_singleton around) reached

/-- With the map around, everything comes into effect below what the child is reached as. -/
theorem within (alongside : Alongside layout around inner bare whole) {reference : Reference K}
    {lower : Fragment} (stands : standsFor layout reference = .ok inner)
    (reached : reach layout around reference = .ok lower) : Within layout anywhere lower whole := by
  obtain ⟨maps, way, _, composed⟩ := alongside.way
  have outer : LayerMap.composeAll ([inner.layerMap] ++ [around]) = .ok lower.layerMap :=
    composeAll_of_reach stands (LayerMap.composeAll_singleton around) reached
  refine ⟨maps, (node_of_reach stands reached).symm ▸ way, ?_⟩
  rw [← LayerMap.composeAll_append outer, ← List.append_assoc]
  exact composed

private theorem associates (alongside : Alongside layout around inner bare whole)
    (expandable : Expandable layout around inner) {node : Node K}
    (found : layout.node whole.node = .ok node) {layer : String} (member : layer ∈ node.geometry.names)
    {result : Option String} : whole.layerMap.lookup layer = .ok result ↔
      bare.layerMap.lookupThrough around layer = .ok result := by
  obtain ⟨maps, way, inside, all⟩ := alongside.way
  exact (expandable.associates maps _ node way found).reads _ _ inside all layer member result

/-- A child that leads to a node is reached without the map around exactly when it is reached with
it, and then the two stand alongside again. -/
theorem child (alongside : Alongside layout around inner bare whole)
    (expandable : Expandable layout around inner) {node below : Node K}
    {child : String × Reference K} {own : Fragment} (found : layout.node whole.node = .ok node)
    (member : child ∈ node.children) (stands : standsFor layout child.2 = .ok own)
    (present : layout.node own.node = .ok below) :
    ((∃ lower, reach layout bare.layerMap child.2 = .ok lower) ↔
      ∃ other, reach layout whole.layerMap child.2 = .ok other) ∧
    ∀ lower other, reach layout bare.layerMap child.2 = .ok lower →
      reach layout whole.layerMap child.2 = .ok other → Alongside layout around inner lower other := by
  obtain ⟨maps, way, inside, all⟩ := alongside.way
  have further := way.step found member trivial stands
  have composes := (expandable.associates _ _ below further present).composes
  constructor
  · constructor
    · intro reached
      obtain ⟨lower, reached⟩ := reached
      obtain ⟨total, joined⟩ := composes.mp ⟨_, composeAll_of_reach stands inside reached⟩
      exact ⟨_, reach_of_composeAll stands all joined⟩
    · intro reached
      obtain ⟨other, reached⟩ := reached
      obtain ⟨total, joined⟩ := composes.mpr ⟨_, composeAll_of_reach stands all reached⟩
      exact ⟨_, reach_of_composeAll stands inside joined⟩
  · intro lower other first second
    have below := node_of_reach stands second
    exact ⟨(node_of_reach stands first).trans below.symm, _, below ▸ further,
      composeAll_of_reach stands inside first, composeAll_of_reach stands all second⟩

/-- What is sent on in the map around lands where the whole map keeps it. -/
theorem kept? (alongside : Alongside layout around inner bare whole)
    (expandable : Expandable layout around inner) {node : Node K}
    (found : layout.node whole.node = .ok node) {layer : String} (member : layer ∈ node.geometry.names)
    (known : ∃ destination, whole.layerMap.lookup layer = .ok destination) :
    whole.layerMap.kept? layer = (bare.layerMap.kept? layer).bind around.kept? := by
  obtain ⟨destination, direct⟩ := known
  have through := (alongside.associates expandable found member).mp direct
  rcases LayerMap.lookupThrough_eq_ok_iff.mp through with ⟨between, first, last⟩ | ⟨first, rfl⟩
  · simp [LayerMap.kept?, direct, first, last, Except.toOption]
  · simp [LayerMap.kept?, direct, first, Except.toOption]

/-- A layer is known with the map around if where it goes below is known there. -/
theorem known (alongside : Alongside layout around inner bare whole)
    (expandable : Expandable layout around inner) {node : Node K}
    (found : layout.node whole.node = .ok node) {layer : String} (member : layer ∈ node.geometry.names)
    (mapped : ∃ destination, bare.layerMap.lookup layer = .ok destination)
    (onward : ∀ between, bare.layerMap.lookup layer = .ok (some between) →
      ∃ destination, around.lookup between = .ok destination) :
    ∃ destination, whole.layerMap.lookup layer = .ok destination := by
  obtain ⟨destination, sent⟩ := mapped
  cases destination with
  | none => exact ⟨none, (alongside.associates expandable found member).mpr
      (LayerMap.lookupThrough_eq_ok_iff.mpr (.inr ⟨sent, rfl⟩))⟩
  | some between =>
    obtain ⟨last, there⟩ := onward between sent
    exact ⟨last, (alongside.associates expandable found member).mpr
      (LayerMap.lookupThrough_eq_ok_iff.mpr (.inl ⟨between, sent, there⟩))⟩

end Alongside

private theorem mem_names_of_mem_marks {K : Type} {geometry : LayerGeometry K} {layer : String}
    (marked : layer ∈ geometry.marks) : layer ∈ geometry.names := by
  obtain ⟨entry, listed, rfl, _⟩ := LayerGeometry.mem_marks_iff.mp marked
  exact List.mem_map_of_mem listed

/-- Where something is marked, what a reference stands for has a node. -/
theorem Marks.exists_node {fragments : List Fragment} {marked : List String}
    (marks : Marks layout fragments marked) {lower : Fragment} (listed : lower ∈ fragments)
    {layerMap : LayerMap} {reference : Reference K}
    (reached : reach layout layerMap reference = .ok lower) :
    ∃ own node, standsFor layout reference = .ok own ∧ layout.node own.node = .ok node := by
  obtain ⟨own, stands, same, _⟩ := reach_eq_ok_iff.mp reached
  obtain ⟨node, found⟩ := (exists_marks_iff.mp ⟨marked, marks⟩ lower listed).node
  exact ⟨own, node, stands, same ▸ found⟩

/-- Where the marks of an expanded child are known around it, they are sent on to those of a call. -/
theorem Marks.widen {reference : Reference K} {lower : Fragment}
    (expandable : Expandable layout around inner) (stands : standsFor layout reference = .ok inner)
    (reached : reach layout around reference = .ok lower) (charted : Charted layout lower)
    {bare whole : List Fragment} {marked : List String} (marks : Marks layout bare marked)
    (known : ∀ layer ∈ marked, ∃ destination, around.lookup layer = .ok destination)
    (alongside : List.Forall₂ (Alongside layout around inner) bare whole) :
    Marks layout whole (marked.filterMap around.kept?) := by
  induction marks generalizing whole with
  | nothing =>
    cases alongside
    exact .nothing
  | @visit fragment node children rest within later found mapped below inside after ihInside ihAfter =>
    obtain ⟨other, others, first, behind, rfl⟩ := List.forall₂_cons_left_iff.mp alongside
    rw [first.same] at found
    simp only [List.mem_append, or_imp, forall_and] at known
    obtain ⟨⟨own, lowerKnown⟩, laterKnown⟩ := known
    have wider : ∀ entry ∈ node.geometry.entries, ∃ destination,
        other.layerMap.lookup entry.1 = .ok destination := by
      intro entry listed
      by_cases blank : ∀ polygon ∈ entry.2, polygon.isEmpty
      · exact charted other (first.within stands reached) node found entry listed blank
      · have drawn : entry.1 ∈ node.geometry.marks := by
          refine LayerGeometry.mem_marks_iff.mpr ⟨entry, listed, rfl, fun nothing => blank ?_⟩
          simpa using nothing
        refine first.known expandable found (mem_names_of_mem_marks drawn) (mapped entry listed) ?_
        intro between sent
        exact own between
          (List.mem_filterMap.mpr ⟨entry.1, drawn, LayerMap.kept?_eq_some_iff.mpr sent⟩)
    obtain ⟨lowers, followed, beside⟩ := exists_forall₂ below fun child member lower listed pair => by
      obtain ⟨own, deeper, stands, present⟩ := inside.exists_node listed pair
      obtain ⟨composes, pairs⟩ := first.child expandable found member stands present
      obtain ⟨other, onward⟩ := composes.mp ⟨lower, pair⟩
      exact ⟨other, onward, pairs lower other pair onward⟩
    have sent : node.geometry.marks.filterMap other.layerMap.kept? =
        (node.geometry.marks.filterMap fragment.layerMap.kept?).filterMap around.kept? := by
      rw [List.filterMap_filterMap]
      refine List.filterMap_congr fun layer member => ?_
      obtain ⟨entry, listed, rfl, _⟩ := LayerGeometry.mem_marks_iff.mp member
      exact first.kept? expandable found (mem_names_of_mem_marks member) (wider entry listed)
    rw [List.filterMap_append, List.filterMap_append, ← sent]
    exact .visit found wider followed (ihInside lowerKnown beside) (ihAfter laterKnown behind)

/-- What a call marks is marked by the expanded child first, and known around it. -/
theorem Marks.narrow (expandable : Expandable layout around inner) {bare whole : List Fragment}
    {marked : List String} (marks : Marks layout whole marked)
    (alongside : List.Forall₂ (Alongside layout around inner) bare whole) :
    ∃ inside, Marks layout bare inside ∧
      ∀ layer ∈ inside, ∃ destination, around.lookup layer = .ok destination := by
  induction marks generalizing bare with
  | nothing =>
    cases alongside
    exact ⟨[], .nothing, by simp⟩
  | @visit fragment node children rest within later found mapped below inside after ihInside ihAfter =>
    obtain ⟨other, others, first, behind, rfl⟩ := List.forall₂_cons_right_iff.mp alongside
    have through : ∀ layer ∈ node.geometry.names, ∃ destination,
        other.layerMap.lookupThrough around layer = .ok destination := by
      intro layer member
      obtain ⟨entry, listed, rfl⟩ := List.mem_map.mp member
      obtain ⟨destination, direct⟩ := mapped entry listed
      exact ⟨destination, (first.associates expandable found member).mp direct⟩
    have narrower : ∀ entry ∈ node.geometry.entries, ∃ destination,
        other.layerMap.lookup entry.1 = .ok destination := by
      intro entry listed
      obtain ⟨_, sent⟩ := through entry.1 (List.mem_map_of_mem listed)
      rcases LayerMap.lookupThrough_eq_ok_iff.mp sent with ⟨between, start, _⟩ | ⟨start, _⟩
      · exact ⟨_, start⟩
      · exact ⟨_, start⟩
    obtain ⟨lowers, followed, beside⟩ := exists_forall₂ below fun child member lower listed pair => by
      obtain ⟨own, deeper, stands, present⟩ := inside.exists_node listed pair
      obtain ⟨composes, pairs⟩ := first.child expandable found member stands present
      obtain ⟨other, inward⟩ := composes.mpr ⟨lower, pair⟩
      exact ⟨other, inward, pairs other lower inward pair⟩
    obtain ⟨lowerMarked, lowerMarks, lowerKnown⟩ := ihInside beside.flip
    obtain ⟨laterMarked, laterMarks, laterKnown⟩ := ihAfter behind
    rw [← first.same] at found
    refine ⟨_, .visit found narrower followed lowerMarks laterMarks, ?_⟩
    simp only [List.mem_append, or_imp, forall_and]
    refine ⟨⟨fun layer member => ?_, lowerKnown⟩, laterKnown⟩
    obtain ⟨source, drawn, kept⟩ := List.mem_filterMap.mp member
    obtain ⟨destination, sent⟩ := through source (mem_names_of_mem_marks drawn)
    have start := LayerMap.kept?_eq_some_iff.mp kept
    rcases LayerMap.lookupThrough_eq_ok_iff.mp sent with ⟨between, other, onward⟩ | ⟨other, _⟩
    · cases Option.some.inj (Except.ok.inj (start.symm.trans other))
      exact ⟨destination, onward⟩
    · cases Except.ok.inj (start.symm.trans other)

namespace Expandable

variable {reference : Reference K}

/-- What is drawn for an expanded child is what a call marks. -/
theorem exists_marks (acyclic : layout.Acyclic)
    (expandable : ∀ inner, standsFor layout reference = .ok inner → Expandable layout around inner)
    (charted : ∀ lower, reach layout around reference = .ok lower → Charted layout lower)
    {flattened : Flattened K} (flattens : layout.flatten reference = .ok flattened)
    (known : ∀ layer ∈ flattened.geometry.marks, ∃ destination, around.lookup layer = .ok destination) :
    ∃ lower marked, reach layout around reference = .ok lower ∧ Marks layout [lower] marked ∧
      (flattened.geometry.marks.filterMap around.kept?).Perm marked := by
  obtain ⟨inner, stands, marked, marks⟩ :=
    (exists_flatten_iff acyclic fun inner stands => (expandable inner stands).veiled).mp
      ⟨flattened, flattens⟩
  have perm := perm_marks_of_flatten flattens stands marks
  obtain ⟨node, found⟩ := Marked.node ⟨marked, marks⟩
  obtain ⟨composed, joined⟩ := ((expandable inner stands).associates [] _ node .start found).composes.mp
    ⟨_, LayerMap.composeAll_singleton inner.layerMap⟩
  have reached := reach_of_composeAll stands (LayerMap.composeAll_singleton around) joined
  refine ⟨_, _, reached, ?_, perm.filterMap around.kept?⟩
  exact marks.widen (expandable inner stands) stands reached (charted _ reached)
    (fun layer member => known layer (perm.mem_iff.mpr member)) (.cons (.start stands reached) .nil)

/-- What a call marks can be flattened, and is known around. -/
theorem exists_flattened (acyclic : layout.Acyclic)
    (expandable : ∀ inner, standsFor layout reference = .ok inner → Expandable layout around inner)
    {lower : Fragment} (reached : reach layout around reference = .ok lower)
    (marked : Marked layout lower) :
    ∃ flattened, layout.flatten reference = .ok flattened ∧
      ∀ layer ∈ flattened.geometry.marks, ∃ destination, around.lookup layer = .ok destination := by
  obtain ⟨inner, stands, _⟩ := reach_eq_ok_iff.mp reached
  obtain ⟨marked, marks⟩ := marked
  obtain ⟨inside, within, known⟩ := marks.narrow (expandable inner stands)
    (.cons (.start stands reached) .nil)
  obtain ⟨flattened, flattens⟩ :=
    (exists_flatten_iff acyclic fun inner stands => (expandable inner stands).veiled).mpr
      ⟨inner, stands, inside, within⟩
  have perm := perm_marks_of_flatten flattens stands within
  exact ⟨flattened, flattens, fun layer member => known layer (perm.mem_iff.mp member)⟩

end Expandable

end MaskLayout.Cif
