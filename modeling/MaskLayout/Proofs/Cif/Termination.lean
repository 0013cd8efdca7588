import MaskLayout.Proofs.Cif.Success
import MaskLayout.Proofs.Layout.Runs
import MaskLayout.Proofs.Layout.Termination

/-!
Compilations of a hierarchy without circles end by themselves. What a pass brings up is pending in
the next one, and how often that can go on is bounded by the nodes on a way down, whatever layer maps
come together there.
-/
namespace MaskLayout.Cif

open BreadthFirst

/-- Complaints that a compilation can come to. -/
def CifError.IsRefusal {K : Type} : CifError K → Prop
  | .layout error => error.IsLookup
  | .unrepresentable _ _ _ _ => True
  | .outOfSpace => False

/-- A computation that is refused or succeeds. -/
abbrev Decides {K α : Type} (result : Except (CifError K) α) : Prop :=
  Outcome (fun _ => True) CifError.IsRefusal result

private theorem decides_ofLayout {K α : Type} {result : Except LayoutError α}
    (answers : Answers result) :
    Decides (ofLayout result : Except (CifError K) α) := by
  cases result with
  | ok value => trivial
  | error error => exact answers

variable {K : Type} [Scalar K] {layout : Layout K}

omit [Scalar K] in
private theorem draw_answers (layerMap : LayerMap) (geometry : LayerGeometry K) :
    Answers (draw layerMap geometry) := by
  refine (Outcome.mapM (fun _ => True) _ fun entry _ => ?_).bind fun runs _ => trivial
  have known := layerMap.lookup_answers entry.1
  dsimp only [drawLayer]
  split
  · trivial
  · cases found : layerMap.lookup entry.1 with
    | error error =>
      rw [found] at known
      exact known
    | ok destination => cases destination <;> trivial

private theorem edge_decides (acyclic : layout.Acyclic) (settings : Settings K) (layerMap : LayerMap)
    (name : String) (reference : Reference K) : Decides (edge layout settings layerMap name reference) := by
  refine (decides_ofLayout (Layout.flatTransform_answers acyclic reference none)).bind
    fun transform _ => ?_
  split
  · refine (decides_ofLayout (Layout.resolve_answers acyclic reference)).bind fun node _ => ?_
    refine (decides_ofLayout (Layout.flatLayerMap_answers acyclic reference none)).bind fun inner _ => ?_
    exact (decides_ofLayout (inner.compose_answers layerMap)).bind fun composed _ => trivial
  · split
    · trivial
    · refine (decides_ofLayout (Layout.flatten_ends acyclic reference).1).bind fun flattened _ => ?_
      exact (decides_ofLayout (draw_answers layerMap flattened.geometry)).bind fun runs _ => trivial

private theorem body_decides (acyclic : layout.Acyclic) (settings : Settings K) (fragment : Fragment) :
    Decides (body layout settings fragment) := by
  refine (decides_ofLayout (layout.node_answers fragment.node)).bind fun node _ => ?_
  refine (decides_ofLayout (draw_answers fragment.layerMap node.geometry)).bind fun runs _ => ?_
  refine (Outcome.mapM (fun _ => True) _ fun child _ => ?_).bind fun edges _ => trivial
  exact edge_decides acyclic settings fragment.layerMap child.1 child.2

private theorem pass_decides (acyclic : layout.Acyclic) (settings : Settings K) (defined : Defined K)
    (pending : List Fragment) : Decides (pass layout settings defined pending) := by
  unfold pass
  refine (Outcome.foldlM (fun _ => True) (fun _ => True) pending (fun fragment _ state _ => ?_)
    trivial).mono fun _ _ => trivial
  unfold define
  split
  · exact ⟨trivial, trivial⟩
  · exact (body_decides acyclic settings fragment).bind fun made _ => ⟨trivial, trivial⟩

/-- Where a compilation stands in a pass. -/
structure Progress (K : Type) where
  defined : Defined K
  /-- How many fragments were defined when the pass began. -/
  known : Nat
  /-- What is left of the pass, and what comes in the next one. -/
  pending : List Fragment
  later : List Fragment
  /-- The passes that are done. -/
  passes : Nat

/-- What a compilation has come to. -/
structure Finish (K : Type) where
  /-- The fragments whose definition was begun, in this order. -/
  definitions : List Fragment
  passes : Nat
  result : Except (CifError K) (Defined K)

omit [Scalar K] in
def Progress.start (pending : List Fragment) : Progress K := ⟨[], 0, pending, [], 0⟩

/-- One round: the next fragment is passed over or defined, or the pass is over. -/
def resolve (layout : Layout K) (settings : Settings K) (progress : Progress K) :
    Round (Progress K) (Finish K) :=
  match progress.pending with
  | [] =>
    if progress.defined.length = progress.known then
      .stop ⟨progress.defined.fragments, progress.passes + 1, .ok progress.defined⟩
    else
      .next ⟨progress.defined, progress.defined.length, progress.later, [], progress.passes + 1⟩
  | fragment :: rest =>
    match define layout settings (progress.defined, progress.later) fragment with
    | .error error =>
      .stop ⟨progress.defined.fragments ++ [fragment], progress.passes + 1, .error error⟩
    | .ok (defined, later) => .next ⟨defined, progress.known, rest, later, progress.passes⟩

variable {settings : Settings K}

private theorem not_mem_of_define {state : Defined K × List Fragment} {fragment : Fragment}
    {error : CifError K}
    (failed : define layout settings state fragment = .error error) :
    fragment ∉ state.1.fragments := by
  intro known
  simp [define, known] at failed

private theorem Extended.nodup {pending : List Fragment} {before after : Defined K × List Fragment}
    (extended : Extended layout settings pending before after) (distinct : before.1.fragments.Nodup) :
    after.1.fragments.Nodup := by
  obtain ⟨added, grown, _, order, _⟩ := extended
  rw [grown, Defined.fragments_append, order]
  exact nodup_append_news distinct pending

/-- The rounds of a pass that succeeds. -/
theorem goes_of_pass {defined extended : Defined K} {pending later after : List Fragment}
    (known passes : Nat)
    (passed : pending.foldlM (define layout settings) (defined, later) = .ok (extended, after)) :
    Relation.ReflTransGen (fun before next => resolve layout settings before = .next next)
      ⟨defined, known, pending, later, passes⟩ ⟨extended, known, [], after, passes⟩ := by
  induction pending generalizing defined later with
  | nil =>
    obtain ⟨rfl, rfl⟩ := Prod.mk.inj (Except.ok.inj passed)
    exact .refl
  | cons fragment rest ih =>
    rw [List.foldlM_cons] at passed
    obtain ⟨next, first, behind⟩ := bind_eq_ok_iff.mp passed
    exact .head (by simp only [resolve, first]) (ih behind)

/-- The rounds of a pass that fails. -/
theorem ends_of_pass {defined : Defined K} {pending later : List Fragment} (known passes : Nat)
    {error : CifError K}
    (failed : pending.foldlM (define layout settings) (defined, later) = .error error)
    (distinct : defined.fragments.Nodup) :
    ∃ definitions rounds, definitions.Nodup ∧
      Ends (resolve layout settings) rounds ⟨defined, known, pending, later, passes⟩
        ⟨definitions, passes + 1, .error error⟩ := by
  induction pending generalizing defined later with
  | nil => cases failed
  | cons fragment rest ih =>
    rw [List.foldlM_cons] at failed
    cases first : define layout settings (defined, later) fragment with
    | error other =>
      rw [first, error_bind] at failed
      cases failed
      have once : (defined.fragments ++ [fragment]).Nodup := by
        rw [← List.concat_eq_append]
        exact distinct.concat (not_mem_of_define first)
      exact ⟨_, 1, once, .stop (by simp only [resolve, first])⟩
    | ok next =>
      rw [first, ok_bind] at failed
      obtain ⟨definitions, rounds, once, ends⟩ := ih failed ((define_eq_ok first).nodup distinct)
      exact ⟨definitions, rounds + 1, once, .next (by simp only [resolve, first]) ends⟩

/-- No pass is needed beyond the number of nodes: what is pending after so many passes lies at the end
of a way down along as many nodes. -/
theorem passes_ends (acyclic : layout.Acyclic) (settings : Settings K) {root : Fragment}
    {allowance distance : Nat} {defined : Defined K} {pending : List Fragment}
    (level : Level (callees layout) root distance defined.fragments pending)
    (total : distance + allowance = layout.nodes.count) (distinct : defined.fragments.Nodup)
    (before : Nat) :
    Decides (passes layout settings allowance defined pending) ∧ ∃ rounds finish,
      Ends (resolve layout settings) rounds ⟨defined, defined.length, pending, [], before⟩ finish ∧
      finish.passes ≤ before + allowance + 1 ∧ finish.definitions.Nodup ∧
      (passes layout settings allowance defined pending).map (fun all => (all.1, before + all.2)) =
        finish.result.map (·, finish.passes) := by
  fun_induction passes layout settings allowance defined pending generalizing distance before with
  | case1 allowance defined pending error failed =>
    have decides := pass_decides acyclic settings defined pending
    rw [failed] at decides
    obtain ⟨definitions, rounds, once, ends⟩ := ends_of_pass defined.length before failed distinct
    refine ⟨decides, rounds, _, ends, ?_, once, rfl⟩
    exact Nat.add_le_add_right (Nat.le_add_right before allowance) 1
  | case2 allowance defined pending extended later passed stopped =>
    let finish : Finish K := ⟨extended.fragments, before + 1, .ok extended⟩
    have last : resolve layout settings ⟨extended, defined.length, [], later, before⟩ = .stop finish := by
      simp only [resolve, stopped, ↓reduceIte, finish]
    obtain ⟨rounds, ends⟩ := Ends.after (goes_of_pass defined.length before passed) (.stop last)
    refine ⟨trivial, rounds, finish, ends, ?_, (pass_eq_ok passed).nodup distinct, rfl⟩
    exact Nat.add_le_add_right (Nat.le_add_right before allowance) 1
  | case3 defined pending extended later passed further =>
    have near := lt_count_of_pass acyclic level passed further
    omega
  | case4 defined pending extended later passed further allowance ih =>
    obtain ⟨decides, rounds, finish, ends, few, once, same⟩ :=
      ih (level_of_pass level passed) (by omega) ((pass_eq_ok passed).nodup distinct) (before + 1)
    obtain ⟨more, whole⟩ := Ends.after (goes_of_pass defined.length before passed)
      (.next (by simp only [resolve, further, ↓reduceIte]) ends)
    refine ⟨decides.bind fun all _ => trivial, more, finish, whole, by omega, once, ?_⟩
    rw [← same]
    cases passes layout settings allowance extended later with
    | error error => rfl
    | ok all => simp [Except.map, pure, Except.pure, Nat.add_assoc, Nat.add_comm 1]

private theorem outline_ends (acyclic : layout.Acyclic) (settings : Settings K) (root : Fragment) :
    Decides (outline layout settings root) ∧ ∃ rounds finish,
      Ends (resolve layout settings) rounds (.start [root]) finish ∧
      finish.passes ≤ layout.nodes.count + 1 ∧ finish.definitions.Nodup ∧
      outline layout settings root = finish.result.map (·, finish.passes) := by
  have level : Level (callees layout) root 0 (Defined.fragments ([] : Defined K)) [root] :=
    .start _ root
  obtain ⟨decides, rounds, finish, ends, few, once, same⟩ :=
    passes_ends acyclic settings level (Nat.zero_add _) .nil 0
  refine ⟨decides, rounds, finish, ends, by omega, once, ?_⟩
  unfold outline
  rw [← same]
  cases passes layout settings layout.nodes.count [] [root] with
  | error error => rfl
  | ok all => simp [Except.map]

private theorem subject_edge_decides (acyclic : layout.Acyclic) (settings : Settings K)
    (subject : Subject K) :
    Decides (subject.edge layout settings) := by
  cases subject with
  | node key => exact (decides_ofLayout (layout.node_answers key)).bind fun node _ => trivial
  | reference reference => exact edge_decides acyclic settings .identity rootName reference

theorem compile_decides (acyclic : layout.Acyclic) (settings : Settings K) (subject : Subject K) :
    Decides (compile layout settings subject) := by
  rw [compile_eq]
  refine (subject_edge_decides acyclic settings subject).bind fun made _ => ?_
  cases made with
  | inline runs => trivial
  | call root transform => exact (outline_ends acyclic settings root).1.bind fun _ _ => trivial

/-- A place that is taken up gives a number to one fragment that had none, or to no fragment. -/
theorem Draft.numbers_of_resolve {draft next : Draft K} {place : Place}
    (resolved : draft.resolve layout settings place = .ok next) :
    next.passes = draft.passes ∧ (next.numbers = draft.numbers ∨ ∃ fragment number,
      draft.numbers.lookup fragment = none ∧ next.numbers = (fragment, number) :: draft.numbers) := by
  by_cases waits : ∃ fragment transform, draft.held? place = some (.pending fragment transform)
  · obtain ⟨fragment, transform, found⟩ := waits
    rw [Draft.resolve_of_pending layout settings found] at resolved
    cases known : draft.numbers.lookup fragment with
    | some number =>
      rw [known] at resolved
      cases resolved
      exact ⟨passes_put _ _ _, .inl (numbers_put _ _ _)⟩
    | none =>
      rw [known] at resolved
      obtain ⟨made, _, rfl⟩ := map_eq_ok_iff.mp resolved
      exact ⟨passes_put _ _ _, .inr ⟨fragment, _, known, numbers_put _ _ _⟩⟩
  · have kept : draft.resolve layout settings place = .ok draft := by
      unfold Draft.resolve
      split
      · rename_i fragment transform found
        exact absurd ⟨fragment, transform, found⟩ waits
      · rfl
    cases kept.symm.trans resolved
    exact ⟨rfl, .inl rfl⟩

/-- A pass is counted, and gives no fragment a second number. -/
private theorem Draft.pass_distinct (layout : Layout K) (settings : Settings K) {draft : Draft K}
    (distinct : (draft.numbers.map Prod.fst).Nodup) :
    Outcome (fun next => next.passes = draft.passes + 1 ∧ (next.numbers.map Prod.fst).Nodup)
      (fun _ => True) (draft.pass layout settings) := by
  refine Outcome.foldlM_keeps _ (fun place _ state kept => ?_) ⟨rfl, distinct⟩
  cases resolved : state.resolve layout settings place with
  | error error => trivial
  | ok next =>
    obtain ⟨same, unchanged | ⟨fragment, number, unknown, added⟩⟩ := numbers_of_resolve resolved
    · exact ⟨same.trans kept.1, unchanged ▸ kept.2⟩
    · have fresh : fragment ∉ state.numbers.map Prod.fst := by
        intro known
        obtain ⟨entry, listed, rfl⟩ := List.mem_map.mp known
        simpa using List.lookup_eq_none_iff.mp unknown entry listed
      refine ⟨same.trans kept.1, ?_⟩
      rw [added]
      exact List.nodup_cons.mpr ⟨fresh, kept.2⟩

/-- One pass over a draft. -/
def Draft.round (layout : Layout K) (settings : Settings K) (draft : Draft K) :
    Round (Draft K) (Except (CifError K) (Draft K)) :=
  match draft.pass layout settings with
  | .error error => .stop (.error error)
  | .ok next =>
    if next.routines.length = draft.routines.length then .stop (.ok next) else .next next

/-- Passes that decide end by themselves, within what is allowed. -/
theorem Draft.run_ends {draft : Draft K} {allowance : Nat}
    (decides : Decides (draft.run layout settings allowance))
    (distinct : (draft.numbers.map Prod.fst).Nodup) : ∃ rounds ≤ allowance + 1,
      Ends (Draft.round layout settings) rounds draft (draft.run layout settings allowance) ∧
      ∀ last, draft.run layout settings allowance = .ok last →
        last.passes = draft.passes + rounds ∧ (last.numbers.map Prod.fst).Nodup := by
  fun_induction Draft.run layout settings allowance draft with
  | case1 allowance draft error failed =>
    exact ⟨1, Nat.le_add_left _ _, .stop (by simp only [Draft.round, failed]), nofun⟩
  | case2 allowance draft next passed stopped =>
    have kept := passed ▸ Draft.pass_distinct layout settings distinct
    refine ⟨1, Nat.le_add_left _ _, .stop (by simp only [Draft.round, passed, stopped, ↓reduceIte]), ?_⟩
    rintro last ⟨⟩
    exact kept
  | case3 draft next passed further => exact decides.elim
  | case4 draft next passed further allowance ih =>
    obtain ⟨counted, apart⟩ := passed ▸ Draft.pass_distinct layout settings distinct
    obtain ⟨rounds, few, ends, reached⟩ := ih decides apart
    refine ⟨rounds + 1, Nat.add_le_add_right few 1, .next ?_ ends, fun last finished => ?_⟩
    · simp only [Draft.round, passed, further, ↓reduceIte]
    · obtain ⟨sum, kept⟩ := reached last finished
      exact ⟨by omega, kept⟩

/-- Nothing has a number before the first pass. -/
private theorem Draft.numbers_of_seed {subject : Subject K} {seeded : Draft K}
    (start : Draft.seed layout settings subject = .ok seeded) :
    seeded.numbers = [] ∧ seeded.passes = 0 := by
  obtain ⟨edge, _, made⟩ := bind_eq_ok_iff.mp start
  cases made
  cases edge with
  | call root transform => exact ⟨rfl, rfl⟩
  | inline runs => exact ⟨rfl, rfl⟩

private theorem Draft.build_ends (acyclic : layout.Acyclic) {subject : Subject K} {seeded : Draft K}
    (start : Draft.seed layout settings subject = .ok seeded) :
    ∃ rounds ≤ layout.nodes.count + 1,
      Ends (Draft.round layout settings) rounds seeded (Draft.build layout settings subject) ∧
      ∀ draft, Draft.build layout settings subject = .ok draft →
        draft.passes = rounds ∧ (draft.numbers.map Prod.fst).Nodup := by
  have decides := compile_decides acyclic settings subject
  unfold compile at decides
  unfold Draft.build at decides ⊢
  rw [start, ok_bind] at decides ⊢
  obtain ⟨none, zero⟩ := Draft.numbers_of_seed start
  have ended : Decides (seeded.run layout settings layout.nodes.count) := by
    cases built : seeded.run layout settings layout.nodes.count with
    | error error =>
      rw [built] at decides
      exact decides
    | ok draft => trivial
  simpa only [zero, Nat.zero_add] using Draft.run_ends ended (by simp [none])

/-- In a hierarchy without circles, where targets may be missing, every loop ends by itself. A walk
along stacked references meets no more of them than are stored and one; flattening comes to the
geometry or to what is missing; and a compilation is done after no more passes over its draft than there
are nodes and one, which it counts as they are, and begins no definition twice. -/
theorem hierarchy_loops_end (acyclic : layout.Acyclic) :
    (∀ reference, Answers (layout.chain reference) ∧ ∃ rounds ≤ layout.references.count + 1,
      Ends layout.descend rounds ([reference], reference) (layout.chain reference)) ∧
    (∀ reference, Answers (layout.flatten reference) ∧
      ∀ root, layout.placement reference = .ok root → ∃ rounds collected,
        Ends layout.advance rounds ([root], .empty) collected ∧
        layout.flatten reference = collected.map fun geometry => ⟨root.node, geometry⟩) ∧
    ∀ settings subject, Decides (compile layout settings subject) ∧
      (∀ seeded, Draft.seed layout settings subject = .ok seeded →
        ∃ rounds ≤ layout.nodes.count + 1,
          Ends (Draft.round layout settings) rounds seeded (Draft.build layout settings subject) ∧
          ∀ draft, Draft.build layout settings subject = .ok draft →
            draft.passes = rounds ∧ (draft.numbers.map Prod.fst).Nodup) ∧
      ∀ made, subject.edge layout settings = .ok made → ∃ rounds finish,
        Ends (resolve layout settings) rounds (.start made.calls) finish ∧
        finish.passes ≤ layout.nodes.count + 1 ∧ finish.definitions.Nodup ∧
        (compile layout settings subject).map (·.2.passes) =
          finish.result.map fun _ => finish.passes := by
  refine ⟨Layout.chain_ends acyclic, Layout.flatten_ends acyclic, fun settings subject => ?_⟩
  refine ⟨compile_decides acyclic settings subject, fun _ => Draft.build_ends acyclic,
    fun made built => ?_⟩
  cases made with
  | inline runs =>
    refine ⟨1, ⟨[], 1, .ok []⟩, .stop rfl, Nat.le_add_left _ _, .nil, ?_⟩
    rw [compile_eq, Subject.outline, built, ok_bind]
    rfl
  | call root transform =>
    obtain ⟨_, rounds, finish, ends, few, once, same⟩ := outline_ends acyclic settings root
    refine ⟨rounds, finish, ends, few, once, ?_⟩
    rw [compile_eq, Subject.outline, built, ok_bind]
    simp only [same]
    cases finish.result with
    | error error => rfl
    | ok defined => rfl

/-- A cell that is stacked on a reference to a pad, which is removed. -/
def orphaned : Layout Float :=
  (Layout.empty "orphaned").run [
    .addNode (.empty "pad"),
    .addReference (.toNode (.ofParts 1 1)),
    .addNode ⟨"cell", .empty, [("part", .stackOn (.ofParts 1 1))], by simp, by simp⟩,
    .removeNode (.ofParts 1 1)]

theorem orphaned_ends : orphaned.node (.ofParts 1 1) = .error (.staleKey .node) ∧
    (∃ rounds ≤ 2, Ends orphaned.descend rounds ([.stackOn (.ofParts 1 1)], .stackOn (.ofParts 1 1))
      (.ok ⟨[.stackOn (.ofParts 1 1), .toNode (.ofParts 1 1)], .ofParts 1 1⟩)) ∧
    (∃ rounds collected,
      Ends orphaned.advance rounds ([⟨.ofParts 1 1, .identity, .identity⟩], .empty) collected ∧
      orphaned.flatten (.toNode (.ofParts 1 1)) = collected.map (⟨.ofParts 1 1, ·⟩)) ∧
    (∀ settings, ∃ rounds finish,
      Ends (resolve orphaned settings) rounds (.start [⟨.ofParts 2 1, .identity⟩]) finish ∧
      finish.passes ≤ 2 ∧ finish.definitions.Nodup ∧
      (compile orphaned settings (.node (.ofParts 2 1))).map (·.2.passes) =
        finish.result.map fun _ => finish.passes) ∧
    ∀ settings, ∃ seeded, Draft.seed orphaned settings (.node (.ofParts 2 1)) = .ok seeded ∧
      ∃ rounds ≤ 2, Ends (Draft.round orphaned settings) rounds seeded
          (Draft.build orphaned settings (.node (.ofParts 2 1))) ∧
        ∀ draft, Draft.build orphaned settings (.node (.ofParts 2 1)) = .ok draft →
          draft.passes = rounds ∧ (draft.numbers.map Prod.fst).Nodup := by
  have acyclic : orphaned.Acyclic := ((Layout.Origin.empty "orphaned").sound.run _ (by decide)).acyclic
  obtain ⟨walks, flattens, compiles⟩ := hierarchy_loops_end acyclic
  exact ⟨rfl, (walks (.stackOn (.ofParts 1 1))).2, (flattens (.toNode (.ofParts 1 1))).2 _ rfl,
    fun settings => (compiles settings (.node (.ofParts 2 1))).2.2 _ rfl,
    fun settings => ⟨_, rfl, (compiles settings (.node (.ofParts 2 1))).2.1 _ rfl⟩⟩

end MaskLayout.Cif
