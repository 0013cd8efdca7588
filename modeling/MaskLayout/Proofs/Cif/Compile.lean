import MaskLayout.Cif.Writer
import MaskLayout.Proofs.Cif.Tracking

namespace MaskLayout.Cif

variable {K : Type} [Scalar K] (layout : Layout K) (settings : Settings K)

namespace Draft

/-- What is taken up stands apart from what is defined for it. -/
theorem resolve_of_pending {draft : Draft K} {place : Place} {fragment : Fragment}
    {transform : Transform K} (found : draft.held? place = some (.pending fragment transform)) :
    draft.resolve layout settings place = match draft.numbers.lookup fragment with
      | some number => .ok (draft.put place (.line (.call number transform)))
      | none => (body layout settings fragment).map fun made =>
        (draft.extend fragment made).put place (.line (.call (draft.routines.length + 1) transform)) := by
  have inside : draft.held? place ≠ none := by simp [found]
  simp only [resolve, found, numbers_put]
  cases draft.numbers.lookup fragment with
  | some number => simp [pure, Except.pure, put_put]
  | none =>
    rw [define_eq]
    cases body layout settings fragment with
    | error error => rfl
    | ok made => simp [Except.map, pure, Except.pure, extend_put inside, put_put]

variable {top : List (Entry K)} {draft : Draft K} {place : Place} {rest : List Place}
  {defined : Defined K} {fragment : Fragment} {pending later : List Fragment}

private theorem Tracks.resolve
    (tracks : Tracks top draft (place :: rest) defined (fragment :: pending) later) :
    Follows (fun next state => Tracks top next rest state.1 pending state.2 ∧
        next.passes = draft.passes)
      (draft.resolve layout settings place) (Cif.define layout settings (defined, later) fragment) := by
  have calls : (defined.sketch top).Calls place fragment := (List.forall₂_cons.mp tracks.left).1
  obtain ⟨transform, found⟩ := calls
  have waits := tracks.waits place (by simp)
  rw [found] at waits
  rw [resolve_of_pending layout settings waits, tracks.numbers, Cif.define]
  by_cases member : fragment ∈ defined.fragments
  · simp only [member, ↓reduceIte]
    exact .ok ⟨tracks.settle found member, passes_put _ _ _⟩
  · simp only [member, ↓reduceIte]
    cases body layout settings fragment with
    | error error => exact .error error
    | ok made =>
      have extended := tracks.extend member made
      have held : (Defined.sketch (defined ++ [(fragment, made)]) top).held? place =
          some (.pending fragment transform) := by
        rw [Defined.held?_sketch_append, found, Option.some_or]
      have settled := extended.settle held (by simp [Defined.fragments_append])
      rw [Defined.number_append_self member, ← tracks.size] at settled
      exact .ok ⟨settled, passes_put _ _ _⟩

private theorem Tracks.foldlM (tracks : Tracks top draft rest defined pending later) :
    Follows (fun next state => Tracks top next [] state.1 [] state.2 ∧ next.passes = draft.passes)
      (rest.foldlM (Draft.resolve layout settings) draft)
      (pending.foldlM (Cif.define layout settings) (defined, later)) := by
  induction rest generalizing draft defined pending later with
  | nil =>
    cases List.forall₂_nil_left_iff.mp tracks.left
    exact .ok ⟨tracks, rfl⟩
  | cons place rest ih =>
    obtain ⟨fragment, behind, _, _, rfl⟩ := List.forall₂_cons_left_iff.mp tracks.left
    rw [List.foldlM_cons, List.foldlM_cons]
    refine (tracks.resolve layout settings).bind fun next state taken => ?_
    have onward := ih taken.1
    rwa [taken.2] at onward

/-- The next pass takes up all that is noted. -/
theorem Tracks.pass (tracks : Tracks top draft [] defined [] pending) :
    Follows (fun next state => Tracks top next [] state.1 [] state.2 ∧
        next.passes = draft.passes + 1)
      (draft.pass layout settings) (Cif.pass layout settings defined pending) := by
  have taken : Tracks top { draft with fixups := [], passes := draft.passes + 1 } draft.fixups defined
      pending [] := by
    refine ⟨tracks.size, tracks.numbers, tracks.expansions, tracks.noted, .nil, ?_, ?_, ?_, ?_⟩ <;>
      rw [List.append_nil]
    · exact tracks.distinct
    · exact tracks.waits
    · exact tracks.settled
    · exact tracks.known
  exact taken.foldlM layout settings

/-- The passes over a draft are those of the search, and when the last one is over nothing waits. -/
theorem Tracks.run (tracks : Tracks top draft [] defined [] pending) (allowance : Nat) :
    Follows (fun last result => Tracks top last [] result.1 [] [] ∧
        last.passes = draft.passes + result.2)
      (draft.run layout settings allowance) (Cif.passes layout settings allowance defined pending) := by
  fun_induction Cif.passes layout settings allowance defined pending generalizing draft with
  | case1 allowance defined pending error failed =>
    have first := (failed ▸ tracks.pass layout settings).of_error
    rw [Draft.run.eq_def, first]
    exact .error error
  | case2 allowance defined pending extended later passed stopped =>
    obtain ⟨next, first, onward, counted⟩ := (passed ▸ tracks.pass layout settings).of_ok
    have ended : next.routines.length = draft.routines.length := by
      rw [onward.size, tracks.size, stopped]
    rw [(stopped_pass passed stopped).2] at onward
    simp only [Draft.run.eq_def, first, ended, ↓reduceIte]
    exact .ok ⟨onward, counted⟩
  | case3 defined pending extended later passed further =>
    obtain ⟨next, first, onward, _⟩ := (passed ▸ tracks.pass layout settings).of_ok
    have more : next.routines.length ≠ draft.routines.length := by rwa [onward.size, tracks.size]
    simp only [Draft.run.eq_def, first, more, ↓reduceIte]
    exact .error _
  | case4 defined pending extended later passed further allowance ih =>
    obtain ⟨next, first, onward, counted⟩ := (passed ▸ tracks.pass layout settings).of_ok
    have more : next.routines.length ≠ draft.routines.length := by rwa [onward.size, tracks.size]
    rw [Draft.run.eq_def]
    simp only [first, more, ↓reduceIte]
    have rest := ih onward
    generalize next.run layout settings allowance = last,
      Cif.passes layout settings allowance extended later = result at rest
    cases rest with
    | error error => exact .error error
    | ok pair => exact .ok ⟨pair.1, by rw [pair.2, counted]; omega⟩

/-- A draft in which nothing waits takes one pass. -/
theorem run_of_fixups (quiet : draft.fixups = []) (allowance : Nat) :
    draft.run layout settings allowance = .ok { draft with passes := draft.passes + 1 } := by
  have passed : draft.pass layout settings = .ok { draft with passes := draft.passes + 1 } := by
    rw [pass, quiet, List.foldlM_nil, ← quiet]
    rfl
  simp only [Draft.run.eq_def, passed, ↓reduceIte]

omit [Scalar K] in
/-- The call of a root before the first pass. -/
theorem Tracks.seed (root : Fragment) (transform : Transform K) :
    Tracks [.pending root transform]
      { (empty : Draft K) with top := [.pending root transform], fixups := [.top 0] } [] [] [] [root] := by
  have elsewhere (place : Place) (apart : place ≠ .top 0) :
      (Defined.sketch [] [.pending root transform]).held? place = none := by
    cases place with
    | top position =>
      cases position with
      | zero => exact absurd rfl apart
      | succ position => rfl
    | body routine position => rfl
  refine ⟨rfl, fun fragment => rfl, rfl, .nil, .cons ⟨transform, rfl⟩ .nil, by simp, ?_, ?_, ?_⟩
  · intro place listed
    cases List.mem_singleton.mp listed
    rfl
  · intro place outside
    rw [elsewhere place (by simpa using outside)]
    exact elsewhere place (by simpa using outside)
  · rintro place outside fragment ⟨placed, found⟩
    rw [elsewhere place (by simpa using outside)] at found
    cases found

end Draft

/-- A draft that is a program: no place is noted, and there is nothing in it but lines. -/
structure Draft.Finished (draft : Draft K) (program : Program K) (summary : Summary) : Prop where
  fixups : draft.fixups = []
  routines : draft.routines = program.routines.map (List.map .line)
  top : draft.top = [.line (.call program.root program.transform)]
  summary : draft.summary = summary

private theorem Draft.Finished.program_eq {draft : Draft K} {program : Program K} {summary : Summary}
    (finished : draft.Finished program summary) : draft.program = program := by
  have written (routine : List (Line K)) :
      (routine.map Entry.line).filterMap Entry.line? = routine := by
    simp [List.filterMap_map, Function.comp_def, Entry.line?]
  simp [Draft.program, finished.routines, finished.top, Function.comp_def, written]

/-- All of a finished draft is written. -/
theorem Draft.Finished.lines_eq {draft : Draft K} {program : Program K} {summary : Summary}
    (finished : draft.Finished program summary) :
    draft.lines settings = (program.commands settings).map Command.text := by
  have written (routine : List (Line K)) : (routine.map Entry.line).filterMap (Entry.text? settings) =
      (routine.map settings.command).map Command.text := by
    simp [List.filterMap_map, Function.comp_def, Entry.text?]
  simp [Draft.lines, Program.commands, finished.routines, finished.top, List.zipIdx_map, written,
    Entry.text?, Settings.command, List.flatMap_map, List.map_flatMap, Function.comp_def]

theorem Draft.Finished.text_eq {draft : Draft K} {program : Program K} {summary : Summary}
    (finished : draft.Finished program summary) : draft.text settings = program.text settings := by
  rw [Draft.text, finished.lines_eq, Program.text, List.map_map]
  rfl

/-- What a subject comes to apart from any draft: the outline of the fragment that it calls, or a
routine of its own. -/
def Subject.outline (layout : Layout K) (settings : Settings K) (subject : Subject K) :
    Except (CifError K) (Program K × Summary) := do
  match ← subject.edge layout settings with
  | .inline runs => return (⟨[runs.flatMap Run.lines], 1, .identity⟩, ⟨1, 1, 1⟩)
  | .call root transform =>
    let (defined, passes) ← Cif.outline layout settings root
    let expansions := (defined.flatMap (·.2.edges)).countP Edge.isInline
    return (⟨defined.routines, defined.number root, transform⟩,
      ⟨defined.length, expansions, passes⟩)

/-- A routine that is called as it is. -/
theorem Draft.start_inline (runs : List (Run K)) : start (.inline runs) =
    ⟨[(runs.flatMap Run.lines).map .line], [.line (.call 1 .identity)], [], [], 1, 0⟩ := by
  simp [start, allocate, install, empty, Edge.entries, Entry.sites_of_lines]

private theorem Draft.build_follows (layout : Layout K) (settings : Settings K) (subject : Subject K) :
    Follows (fun draft result => draft.Finished result.1 result.2)
      (Draft.build layout settings subject) (subject.outline layout settings) := by
  unfold Draft.build Draft.seed Subject.outline
  cases subject.edge layout settings with
  | error error => exact .error error
  | ok edge =>
    cases edge with
    | inline runs =>
      simp only [ok_bind, pure, Except.pure, start_inline]
      rw [run_of_fixups layout settings rfl]
      exact .ok ⟨rfl, rfl, rfl, rfl⟩
    | call root transform =>
      have followed := (Tracks.seed root transform).run layout settings layout.nodes.count
      rw [← Cif.outline] at followed
      simp only [ok_bind]
      change Follows _ (Draft.run layout settings layout.nodes.count
        { (empty : Draft K) with top := [.pending root transform], fixups := [.top 0] }) _
      generalize Draft.run layout settings layout.nodes.count _ = last,
        Cif.outline layout settings root = result at followed ⊢
      cases followed with
      | error error => exact .error error
      | ok pair =>
        obtain ⟨tracks, counted⟩ := pair
        obtain ⟨none, routines, top⟩ := tracks.routines_eq
        refine .ok ⟨none, routines, top, ?_⟩
        rw [Draft.summary, tracks.size, tracks.expansions, counted]
        simp [empty]

theorem compile_eq (subject : Subject K) :
    compile layout settings subject = subject.outline layout settings := by
  have followed := Draft.build_follows layout settings subject
  unfold compile
  generalize Draft.build layout settings subject = built, subject.outline layout settings = result
    at followed ⊢
  cases followed with
  | error error => rfl
  | ok finished => rw [ok_bind, finished.program_eq, finished.summary]; rfl

/-- What is written is the text of the program. -/
theorem write_eq (space : Space) (subject : Subject K) : write layout settings space subject =
    match compile layout settings subject with
    | .error error => (space, .error error)
    | .ok (program, summary) =>
      ((space.append (program.text settings)).1,
        if (space.append (program.text settings)).2 then .ok summary else .error .outOfSpace) := by
  rw [compile_eq]
  have followed := Draft.build_follows layout settings subject
  unfold write
  generalize Draft.build layout settings subject = built, subject.outline layout settings = result
    at followed ⊢
  cases followed with
  | error error => rfl
  | ok finished => simp only [finished.text_eq, finished.summary]

variable {layout settings}

theorem exists_draft_of_compile {subject : Subject K} {program : Program K} {summary : Summary}
    (success : compile layout settings subject = .ok (program, summary)) :
    ∃ draft, Draft.build layout settings subject = .ok draft ∧ draft.Finished program summary := by
  have followed := Draft.build_follows layout settings subject
  rw [← compile_eq, success] at followed
  exact followed.of_ok

end MaskLayout.Cif
