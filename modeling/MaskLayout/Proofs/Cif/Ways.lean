import MaskLayout.Proofs.Cif.Marks

namespace MaskLayout.Cif

variable {K : Type} [Scalar K]

/-- A way through nodes that are there, along some of the references, with the layer maps of what
these stand for, the innermost one first. -/
inductive Way (layout : Layout K) (along : Reference K → Prop) (top : NodeKey) :
    List LayerMap → NodeKey → Prop where
  | start : Way layout along top [] top
  | step {maps : List LayerMap} {key : NodeKey} {node : Node K} {child : String × Reference K}
      {inner : Fragment} (way : Way layout along top maps key) (found : layout.node key = .ok node)
      (member : child ∈ node.children) (allowed : along child.2)
      (stands : standsFor layout child.2 = .ok inner) :
      Way layout along top (inner.layerMap :: maps) inner.node

/-- A fragment that comes into effect below another one. -/
def Within (layout : Layout K) (along : Reference K → Prop) (upper lower : Fragment) : Prop :=
  ∃ maps, Way layout along upper.node maps lower.node ∧
    LayerMap.composeAll (maps ++ [upper.layerMap]) = .ok lower.layerMap

/-- Along all references. -/
def anywhere (_ : Reference K) : Prop := True

/-- A node that is there, and whose children all lead somewhere. -/
def Complete (layout : Layout K) (key : NodeKey) : Prop :=
  ∃ node, layout.node key = .ok node ∧
    ∀ child ∈ node.children, ∃ inner, standsFor layout child.2 = .ok inner

/-- Nothing is missing where every layer is discarded. -/
def Veiled (layout : Layout K) (root : Fragment) : Prop :=
  ∀ fragment, Within layout anywhere root fragment → fragment.layerMap = .discardAll →
    Complete layout fragment.node

variable {layout : Layout K} {along other : Reference K → Prop}

theorem node_of_reach {layerMap : LayerMap} {reference : Reference K} {own lower : Fragment}
    (stands : standsFor layout reference = .ok own)
    (reached : reach layout layerMap reference = .ok lower) : lower.node = own.node := by
  obtain ⟨other, same, node, _⟩ := reach_eq_ok_iff.mp reached
  cases Except.ok.inj (stands.symm.trans same)
  exact node.symm

/-- Whatever the maps around are, what a reference is reached with has its own map in front. -/
theorem composeAll_of_reach {reference : Reference K} {own lower : Fragment} {outer : List LayerMap}
    {above : LayerMap} (stands : standsFor layout reference = .ok own)
    (start : LayerMap.composeAll outer = .ok above)
    (reached : reach layout above reference = .ok lower) :
    LayerMap.composeAll (own.layerMap :: outer) = .ok lower.layerMap := by
  obtain ⟨other, same, _, fits⟩ := reach_eq_ok_iff.mp reached
  cases Except.ok.inj (stands.symm.trans same)
  exact LayerMap.composeAll_cons_eq_ok.mpr ⟨above, start, fits⟩

theorem reach_of_composeAll {reference : Reference K} {own : Fragment} {outer : List LayerMap}
    {above composed : LayerMap} (stands : standsFor layout reference = .ok own)
    (start : LayerMap.composeAll outer = .ok above)
    (joined : LayerMap.composeAll (own.layerMap :: outer) = .ok composed) :
    reach layout above reference = .ok ⟨own.node, composed⟩ := by
  obtain ⟨between, same, fits⟩ := LayerMap.composeAll_cons_eq_ok.mp joined
  cases Except.ok.inj (start.symm.trans same)
  exact reach_eq_ok_iff.mpr ⟨own, stands, rfl, fits⟩

private theorem Way.mono {top key : NodeKey} {maps : List LayerMap} (way : Way layout along top maps key)
    (wider : ∀ reference, along reference → other reference) : Way layout other top maps key := by
  induction way with
  | start => exact .start
  | step way found member allowed stands ih => exact .step ih found member (wider _ allowed) stands

private theorem Way.append {top middle bottom : NodeKey} {maps more : List LayerMap}
    (upper : Way layout along top maps middle) (lower : Way layout along middle more bottom) :
    Way layout along top (more ++ maps) bottom := by
  induction lower with
  | start => exact upper
  | step way found member allowed stands ih => exact .step ih found member allowed stands

namespace Within

theorem refl (root : Fragment) : Within layout along root root :=
  ⟨[], .start, LayerMap.composeAll_singleton root.layerMap⟩

theorem trans {upper middle lower : Fragment} (first : Within layout along upper middle)
    (second : Within layout along middle lower) : Within layout along upper lower := by
  obtain ⟨maps, way, composed⟩ := first
  obtain ⟨more, further, fits⟩ := second
  refine ⟨more ++ maps, way.append further, ?_⟩
  rw [List.append_assoc, LayerMap.composeAll_append composed]
  exact fits

private theorem mono {upper lower : Fragment} (within : Within layout along upper lower)
    (wider : ∀ reference, along reference → other reference) : Within layout other upper lower := by
  obtain ⟨maps, way, composed⟩ := within
  exact ⟨maps, way.mono wider, composed⟩

theorem anyhow {upper lower : Fragment} (within : Within layout along upper lower) :
    Within layout anywhere upper lower :=
  within.mono fun _ _ => trivial

/-- What a child stands for comes into effect below its node. -/
theorem child {upper lower : Fragment} {node : Node K} {child : String × Reference K}
    (found : layout.node upper.node = .ok node) (member : child ∈ node.children)
    (allowed : along child.2) (reached : reach layout upper.layerMap child.2 = .ok lower) :
    Within layout along upper lower := by
  obtain ⟨inner, stands, same, fits⟩ := reach_eq_ok_iff.mp reached
  refine ⟨[inner.layerMap], same ▸ Way.start.step found member allowed stands, ?_⟩
  exact LayerMap.composeAll_cons_eq_ok.mpr
    ⟨upper.layerMap, LayerMap.composeAll_singleton upper.layerMap, fits⟩

end Within

/-- What holds of a root, and with a fragment of all that its children are reached as, holds of every
fragment that comes into effect. -/
theorem Within.induct {holds : Fragment → Prop} {root fragment : Fragment}
    (within : Within layout along root fragment) (start : holds root)
    (step : ∀ upper, holds upper → ∀ node, layout.node upper.node = .ok node →
      ∀ child ∈ node.children, ∀ lower, reach layout upper.layerMap child.2 = .ok lower → holds lower) :
    holds fragment := by
  obtain ⟨maps, way, composed⟩ := within
  obtain ⟨key, layerMap⟩ := fragment
  simp only at way composed
  induction way generalizing layerMap with
  | start =>
    cases Except.ok.inj ((LayerMap.composeAll_singleton root.layerMap).symm.trans composed)
    exact start
  | step way found member allowed stands ih =>
    obtain ⟨above, outer, fits⟩ := LayerMap.composeAll_cons_eq_ok.mp composed
    exact step ⟨_, above⟩ (ih above outer) _ found _ member _ (reach_of_composeAll stands outer composed)

/-- A list that has all that its fragments' children are reached as has everything that comes into
effect. -/
theorem Within.mem_of_closed {fragments : List Fragment} {root fragment : Fragment}
    (within : Within layout along root fragment) (start : root ∈ fragments)
    (closed : ∀ upper ∈ fragments, ∀ node ∈ (layout.node upper.node).toOption,
      ∀ child ∈ node.children, ∀ lower ∈ (reach layout upper.layerMap child.2).toOption,
        lower ∈ fragments) : fragment ∈ fragments :=
  within.induct start fun upper member node found child listed lower reached =>
    closed upper member node (mem_toOption_iff.mpr found) child listed lower
      (mem_toOption_iff.mpr reached)

private theorem Veiled.within {upper lower : Fragment} (veiled : Veiled layout upper)
    (within : Within layout along upper lower) : Veiled layout lower :=
  fun fragment further => veiled fragment (within.anyhow.trans further)

/-- What is hidden can be marked, though nothing of it is. -/
theorem Veiled.marks (acyclic : layout.Acyclic) {fragment : Fragment} (veiled : Veiled layout fragment)
    (discards : fragment.layerMap = .discardAll) : Marks layout [fragment] [] := by
  suffices marked : Marked layout fragment by
    obtain ⟨marked, marks⟩ := marked
    rwa [marks.eq_nil (by simpa using discards)] at marks
  generalize start : Target.node fragment.node = entry
  induction entry using acyclic.wellFounded.induction generalizing fragment with
  | h entry ih =>
    obtain ⟨node, found, whole⟩ := veiled fragment (.refl fragment) discards
    refine marked_iff.mpr ⟨node, found, fun entry _ => ⟨none, by rw [discards]; rfl⟩, ?_⟩
    intro child member
    obtain ⟨inner, stands⟩ := whole child member
    have reached : reach layout fragment.layerMap child.2 = .ok ⟨inner.node, .discardAll⟩ :=
      reach_eq_ok_iff.mpr ⟨inner, stands, rfl, by rw [discards]; exact LayerMap.compose_discardAll _⟩
    have lower := below_of_reach found member reached
    have further : Within layout anywhere fragment ⟨inner.node, .discardAll⟩ :=
      .child found member trivial reached
    exact ⟨_, reached, ih _ (start ▸ lower) (veiled.within further) rfl rfl⟩

/-- What is shown lies on the marked layers. -/
theorem layers_of_shows {placements : List (Placement K)} {drawing : Drawing K}
    (shows : layout.Shows placements drawing) {marked : List String}
    (marks : Marks layout (placements.map fragmentOf) marked) : drawing.layers = marked := by
  induction shows generalizing marked with
  | nothing =>
    cases marks
    rfl
  | @skip placement rest later discards after ih =>
    obtain ⟨own, later, rfl, here, behind⟩ := marks.cons_split
    have silent : own = [] := here.eq_nil fun fragment member => by
      rw [List.mem_singleton.mp member]
      exact discards
    rw [silent, ih behind]
    rfl
  | @visit placement node children rest below later found composed inside after ihInside ihAfter =>
    cases marks with
    | @visit _ node' lower _ within behind found' known reached inside' after' =>
      cases Except.ok.inj (found.symm.trans found')
      have same := mapM_eq_ok_iff.mpr (reach_of_placementsBelow composed)
      cases Except.ok.inj (same.symm.trans (mapM_eq_ok_iff.mpr reached))
      rw [Drawing.layers_append, Drawing.layers_append, Placement.layers_drawing,
        ihInside inside', ihAfter after']
      rfl

omit [Scalar K] in
private theorem map_fragmentOf_append (depth : Nat) (children : List (Placement K))
    (rest : List (Nat × Placement K)) :
    (children.map (depth, ·) ++ rest).map (fun entry => fragmentOf entry.2) =
      children.map fragmentOf ++ rest.map fun entry => fragmentOf entry.2 := by
  simp [Function.comp_def]

/-- What is visited can be marked, if nothing is missing where it is hidden. -/
theorem marks_of_visit (acyclic : layout.Acyclic) {pending : List (Nat × Placement K)}
    {geometry after : LayerGeometry K} (success : layout.visit pending geometry = .ok after)
    (veiled : ∀ entry ∈ pending, Veiled layout (fragmentOf entry.2)) :
    ∃ marked, Marks layout (pending.map fun entry => fragmentOf entry.2) marked := by
  fun_induction Layout.visit layout pending geometry with
  | case1 geometry => exact ⟨[], .nothing⟩
  | case2 geometry depth placement rest discards ih =>
    obtain ⟨first, others⟩ := List.forall_mem_cons.mp veiled
    obtain ⟨later, marks⟩ := ih success others
    exact ⟨later, (first.marks acyclic discards).append marks⟩
  | case3 | case4 | case5 | case6 => cases success
  | case7 geometry placement rest kept depth node found added deposited composed ih =>
    obtain ⟨first, others⟩ := List.forall_mem_cons.mp veiled
    have reached := reach_of_placementsBelow composed
    have lower : ∀ entry ∈ (layout.following placement).map (depth, ·) ++ rest,
        Veiled layout (fragmentOf entry.2) := by
      intro entry member
      rcases List.mem_append.mp member with below | behind
      · obtain ⟨child, listed, rfl⟩ := List.mem_map.mp below
        obtain ⟨born, there, pair⟩ := exists_mem_of_forall₂ reached (List.mem_map_of_mem listed)
        have further : Within layout anywhere (fragmentOf placement) (fragmentOf child) :=
          .child found there trivial pair
        exact first.within further
      · exact others entry behind
    obtain ⟨marked, marks⟩ := ih success lower
    rw [map_fragmentOf_append] at marks
    obtain ⟨within, later, _, inside, after⟩ := marks.split
    have known := Placement.exists_deposit_iff.mp ⟨added, deposited⟩
    exact ⟨_, .visit found known reached inside after⟩

/-- The depth that is left to a pending placement: one for every node that is not passed on the way to
it. -/
def Roomy (layout : Layout K) (entry : Nat × Placement K) : Prop :=
  ∃ passed : List NodeKey, passed.Nodup ∧
    (∀ key ∈ passed, layout.Below (.node entry.2.node) (.node key)) ∧
    passed.length + entry.1 = layout.nodes.count + 1

omit [Scalar K] in
theorem Roomy.pos {entry : Nat × Placement K} (roomy : Roomy layout entry) : 0 < entry.1 := by
  obtain ⟨passed, distinct, above, total⟩ := roomy
  have few := Arena.length_le_count distinct fun key member => (above key member).contains
  omega

omit [Scalar K] in
theorem Roomy.child (acyclic : layout.Acyclic) {depth : Nat} {placement below : Placement K}
    (roomy : Roomy layout (depth + 1, placement))
    (lower : layout.Below (.node below.node) (.node placement.node)) : Roomy layout (depth, below) := by
  obtain ⟨passed, distinct, above, total⟩ := roomy
  refine ⟨placement.node :: passed, ?_, ?_, by simp at total ⊢; omega⟩
  · exact List.nodup_cons.mpr ⟨fun again => acyclic _ (above _ again), distinct⟩
  · exact List.forall_mem_cons.mpr ⟨lower, fun key member => (above key member).trans lower⟩

/-- What can be marked is visited to the end. -/
theorem exists_visit (acyclic : layout.Acyclic) {pending : List (Nat × Placement K)}
    (geometry : LayerGeometry K) {marked : List String}
    (marks : Marks layout (pending.map fun entry => fragmentOf entry.2) marked)
    (roomy : ∀ entry ∈ pending, Roomy layout entry) :
    ∃ after, layout.visit pending geometry = .ok after := by
  fun_induction Layout.visit layout pending geometry generalizing marked with
  | case1 geometry => exact ⟨geometry, rfl⟩
  | case2 geometry depth placement rest discards ih =>
    obtain ⟨_, later, _, _, behind⟩ := marks.cons_split
    exact ih behind (List.forall_mem_cons.mp roomy).2
  | case3 geometry placement rest kept =>
    exact absurd (List.forall_mem_cons.mp roomy).1.pos (by simp)
  | case4 geometry placement rest kept depth error missing =>
    cases marks with
    | visit found => cases found.symm.trans missing
  | case5 geometry placement rest kept depth node found error unknown =>
    cases marks with
    | visit found' known =>
      cases Except.ok.inj (found.symm.trans found')
      obtain ⟨after, deposited⟩ := Placement.exists_deposit_iff.mpr known
      cases deposited.symm.trans unknown
  | case6 geometry placement rest kept depth node found added deposited error misplaced =>
    cases marks with
    | visit found' known reached =>
      cases Except.ok.inj (found.symm.trans found')
      have each : ∀ child ∈ node.children, ∃ lower,
          reach layout placement.layerMap child.2 = .ok lower := by
        intro child member
        obtain ⟨lower, _, pair⟩ := exists_mem_of_forall₂ reached.flip member
        exact ⟨lower, pair⟩
      obtain ⟨children, composed⟩ := exists_placementsBelow_iff.mpr each
      cases composed.symm.trans misplaced
  | case7 geometry placement rest kept depth node found added deposited composed ih =>
    obtain ⟨first, others⟩ := List.forall_mem_cons.mp roomy
    cases marks with
    | visit found' known reached inside after =>
      cases Except.ok.inj (found.symm.trans found')
      have same := mapM_eq_ok_iff.mpr (reach_of_placementsBelow composed)
      cases Except.ok.inj (same.symm.trans (mapM_eq_ok_iff.mpr reached))
      have further := inside.append after
      rw [← map_fragmentOf_append depth] at further
      refine ih further fun entry member => ?_
      rcases List.mem_append.mp member with below | behind
      · obtain ⟨child, listed, rfl⟩ := List.mem_map.mp below
        obtain ⟨born, there, pair⟩ := exists_mem_of_forall₂ reached (List.mem_map_of_mem listed)
        exact first.child acyclic (below_of_reach found there pair)
      · exact others entry behind

/-- Where nothing hidden is missing, flattening succeeds exactly when everything below can be
marked. -/
theorem exists_flatten_iff (acyclic : layout.Acyclic) {reference : Reference K}
    (veiled : ∀ root, standsFor layout reference = .ok root → Veiled layout root) :
    (∃ flattened, layout.flatten reference = .ok flattened) ↔
      ∃ root, standsFor layout reference = .ok root ∧ Marked layout root := by
  constructor
  · intro success
    obtain ⟨flattened, flattens⟩ := success
    obtain ⟨placement, placed, rest⟩ := bind_eq_ok_iff.mp flattens
    obtain ⟨geometry, visited, _⟩ := bind_eq_ok_iff.mp rest
    have stands := standsFor_eq_ok_iff.mpr ⟨placement, placed, rfl⟩
    refine ⟨_, stands, marks_of_visit acyclic visited fun entry member => ?_⟩
    rw [List.mem_singleton.mp member]
    exact veiled _ stands
  · intro marked
    obtain ⟨_, stands, marked, marks⟩ := marked
    obtain ⟨placement, placed, rfl⟩ := standsFor_eq_ok_iff.mp stands
    have start : Roomy layout (layout.nodes.count + 1, placement) := ⟨[], .nil, by simp, by simp⟩
    have pending : Marks layout ([(layout.nodes.count + 1, placement)].map fun entry =>
        fragmentOf entry.2) marked := marks
    obtain ⟨geometry, visited⟩ := exists_visit acyclic .empty pending (by simpa using start)
    exact ⟨⟨placement.node, geometry⟩, bind_eq_ok_iff.mpr
      ⟨placement, placed, bind_eq_ok_iff.mpr ⟨geometry, visited, rfl⟩⟩⟩

/-- Flattening puts as many polygons with corners on each layer as it is marked. -/
theorem perm_marks_of_flatten {reference : Reference K} {flattened : Flattened K} {root : Fragment}
    {marked : List String} (flattens : layout.flatten reference = .ok flattened)
    (stands : standsFor layout reference = .ok root) (marks : Marks layout [root] marked) :
    flattened.geometry.marks.Perm marked := by
  obtain ⟨placement, drawing, placed, shows, collected⟩ := Layout.flatten_eq_ok flattens
  cases Except.ok.inj ((standsFor_eq_ok_iff.mpr ⟨placement, placed, rfl⟩).symm.trans stands)
  rw [List.perm_iff_count]
  intro layer
  rw [LayerGeometry.count_marks, collected, ← Drawing.on_visible, ← Drawing.count_layers,
    layers_of_shows shows marks]

end MaskLayout.Cif
