import MaskLayout.Cif.Command
import MaskLayout.Proofs.Cif.Calls
import MaskLayout.Proofs.Layout.Validation

/-!
Compiled programs are well formed, and so is their text. Every routine stands in one piece between
its definition and its end, and says itself on which layer its polygons lie; whatever is called is
there, is reached from the first routine, and does not lead back to its caller.
-/
namespace MaskLayout.Cif

open BreadthFirst

/-- Every polygon has corners and stands in a run of polygons right after a layer, and every layer is
followed by such a run. -/
structure Layered (body : List Command) : Prop where
  drawn : ∀ before corners after, body = before ++ .polygon corners :: after →
    corners ≠ [] ∧ ∃ earlier name, ∃ run : List (List (Int × Int)),
      before = earlier ++ .layer name :: run.map .polygon
  used : ∀ before name after, body = before ++ .layer name :: after →
    ∃ corners rest, after = .polygon corners :: rest

/-- Whether a command may stand inside a routine, where there are so many of them. -/
def Command.isInside (routines : Nat) : Command → Bool
  | .layer _ | .polygon _ => true
  | .call routine _ => 1 ≤ routine ∧ routine ≤ routines
  | .define _ | .finish | .stop => false

/-- The definitions from a number on, without a gap, and after the last one a single call of the
first routine. -/
inductive Sections (routines : Nat) : Nat → List Command → Prop where
  | top (placing : Placing Int) : Sections routines (routines + 1) [.call 1 placing, .stop]
  | define {number : Nat} {body rest : List Command}
      (inside : ∀ command ∈ body, command.isInside routines) (layered : Layered body)
      (after : Sections routines (number + 1) rest) :
      Sections routines number (.define number :: body ++ .finish :: rest)

/-- What holds of a program that describes a design. -/
structure Program.WellFormed {K : Type} (program : Program K) : Prop where
  root : program.root = 1
  called : ∀ caller callee, program.Calls caller callee →
    1 ≤ callee ∧ callee ≤ program.routines.length
  acyclic : ∀ number, ¬ Relation.TransGen program.Calls number number
  reached : ∀ number, 1 ≤ number → number ≤ program.routines.length →
    Relation.ReflTransGen program.Calls 1 number

private theorem Command.text_ne_empty (command : Command) : command.text ≠ "" := by
  intro empty
  have length := congrArg String.length empty
  cases command with
  | polygon corners => simp [text] at length
  | define routine => simp [text] at length
  | layer name =>
    have mark : toString "L " ≠ "" := by decide
    simp [text, mark] at length
  | call routine placing => simp [text] at length
  | finish => simp [text] at length
  | stop => simp [text] at length

namespace Layered

private theorem nil : Layered [] where
  drawn before _ after split := by simp at split
  used before _ after split := by simp at split

private theorem call (routine : Nat) (placing : Placing Int) : Layered [.call routine placing] where
  drawn before _ after split := by cases before <;> simp at split
  used before _ after split := by cases before <;> simp at split

private theorem append {first second : List Command} (start : Layered first) (rest : Layered second) :
    Layered (first ++ second) where
  drawn before corners after split := by
    rcases List.append_eq_append_iff.mp split with ⟨more, rfl, later⟩ | ⟨more, rfl, later⟩
    · obtain ⟨visible, earlier, name, run, rfl⟩ := rest.drawn more corners after later
      exact ⟨visible, first ++ earlier, name, run, (List.append_assoc _ _ _).symm⟩
    · cases more with
      | nil =>
        obtain ⟨visible, earlier, name, run, same⟩ := rest.drawn [] corners after later.symm
        simp at same
      | cons head more =>
        obtain ⟨rfl, _⟩ := List.cons.inj later
        exact start.drawn before corners more rfl
  used before name after split := by
    rcases List.append_eq_append_iff.mp split with ⟨more, rfl, later⟩ | ⟨more, rfl, later⟩
    · exact rest.used more name after later
    · cases more with
      | nil => exact rest.used [] name after later.symm
      | cons head more =>
        obtain ⟨rfl, rfl⟩ := List.cons.inj later
        obtain ⟨corners, others, rfl⟩ := start.used before name more rfl
        exact ⟨corners, others ++ second, rfl⟩

private theorem flatMap {α : Type} {items : List α} {commands : α → List Command}
    (each : ∀ item ∈ items, Layered (commands item)) : Layered (items.flatMap commands) := by
  induction items with
  | nil => exact nil
  | cons item rest ih =>
    obtain ⟨first, others⟩ := List.forall_mem_cons.mp each
    exact append first (ih others)

/-- A layer with polygons that have corners. -/
theorem run {name : String} {shapes : List (List (Int × Int))} (some : shapes ≠ [])
    (visible : ∀ corners ∈ shapes, corners ≠ []) : Layered (.layer name :: shapes.map .polygon) where
  drawn before corners after split := by
    rcases List.cons_eq_append_iff.mp split with ⟨_, same⟩ | ⟨more, rfl, later⟩
    · cases same
    · obtain ⟨run, others, rfl, rfl, next⟩ := List.map_eq_append_iff.mp later
      obtain ⟨head, rest, rfl, same, _⟩ := List.map_eq_cons_iff.mp next
      cases Command.polygon.inj same
      exact ⟨visible corners (by simp), [], name, run, rfl⟩
  used before other after split := by
    rcases List.cons_eq_append_iff.mp split with ⟨_, same⟩ | ⟨more, _, later⟩
    · obtain ⟨_, rfl⟩ := List.cons.inj same
      obtain ⟨corners, rest, rfl⟩ := List.exists_cons_of_ne_nil some
      exact ⟨corners, rest.map .polygon, rfl⟩
    · have member : .layer other ∈ shapes.map Command.polygon := by simp [later]
      simp at member

end Layered

/-- A run that draws something, and nothing without corners. -/
def Run.IsDrawn {K : Type} (run : Run K) : Prop :=
  run.polygons ≠ [] ∧ ∀ polygon ∈ run.polygons, polygon.points ≠ []

variable {K : Type} [Scalar K] {layout : Layout K} {settings : Settings K}

omit [Scalar K] in
private theorem drawLayer_isDrawn {layerMap : LayerMap} {layer : String} {polygons : List (Polygon K)}
    {runs : List (Run K)} (success : drawLayer layerMap layer polygons = .ok runs) :
    ∀ run ∈ runs, run.IsDrawn := by
  intro run member
  by_cases blank : (polygons.filter fun polygon => !polygon.isEmpty) = []
  · simp only [drawLayer, blank, List.isEmpty_nil, ↓reduceIte, Except.ok.injEq] at success
    simp [← success] at member
  · simp only [drawLayer, List.isEmpty_iff, blank, ↓reduceIte] at success
    split at success
    · cases success
    · simp [← Except.ok.inj success] at member
    · rw [← Except.ok.inj success, List.mem_singleton] at member
      rw [member]
      refine ⟨blank, fun polygon listed => ?_⟩
      have visible := (List.mem_filter.mp listed).2
      simpa [Polygon.isEmpty] using visible

omit [Scalar K] in
private theorem draw_isDrawn {layerMap : LayerMap} {geometry : LayerGeometry K} {runs : List (Run K)}
    (success : draw layerMap geometry = .ok runs) : ∀ run ∈ runs, run.IsDrawn := by
  obtain ⟨parts, made, same⟩ := bind_eq_ok_iff.mp success
  rw [mapM_eq_ok_iff] at made
  rw [← Except.ok.inj same]
  intro run member
  obtain ⟨part, listed, inside⟩ := List.mem_flatten.mp member
  obtain ⟨entry, _, drawn⟩ := exists_mem_of_forall₂ made listed
  exact drawLayer_isDrawn drawn run inside

theorem edge_isDrawn {layerMap : LayerMap} {name : String} {reference : Reference K}
    {runs : List (Run K)} (success : edge layout settings layerMap name reference = .ok (.inline runs)) :
    ∀ run ∈ runs, run.IsDrawn := by
  rcases edge_cases success with ⟨_, _, _, call, _⟩ | ⟨_, _, _, same, _, _, _, _, drawn⟩
  · cases call
  · cases Edge.inline.inj same
    exact draw_isDrawn drawn

theorem layered_runs {runs : List (Run K)} (drawn : ∀ run ∈ runs, run.IsDrawn) :
    Layered ((runs.flatMap Run.lines).map settings.command) := by
  rw [List.map_flatMap]
  apply Layered.flatMap
  intro run member
  obtain ⟨some, visible⟩ := drawn run member
  have shaped : run.lines.map settings.command = .layer run.layer ::
      (run.polygons.map fun polygon => polygon.points.map fun point =>
        quantizePair settings.multiplier (point.x, point.y)).map .polygon := by
    simp [Run.lines, Settings.command]
  rw [shaped]
  apply Layered.run
  · simpa using some
  · simpa using visible

/-- The text of a body, line by line. -/
theorem layered_body {fragment : Fragment} {made : Body K}
    (success : body layout settings fragment = .ok made) (number : Fragment → Nat) :
    Layered ((made.lines number).map settings.command) := by
  obtain ⟨node, _, drawn, edges⟩ := body_eq_ok success
  rw [Body.lines, List.map_append, List.map_flatMap (g := Edge.lines number)]
  apply Layered.append (layered_runs (draw_isDrawn drawn))
  apply Layered.flatMap
  intro edge member
  obtain ⟨child, _, built⟩ := exists_mem_of_forall₂ edges member
  cases edge with
  | call callee placed => exact Layered.call _ _
  | inline runs => exact layered_runs (edge_isDrawn built)

private theorem isInside_command {program : Program K} (wellFormed : program.WellFormed) {number : Nat}
    {lines : List (Line K)} (found : program.routine? number = some lines) :
    ∀ command ∈ lines.map settings.command, command.isInside program.routines.length := by
  intro command member
  obtain ⟨line, listed, rfl⟩ := List.mem_map.mp member
  cases line with
  | layer name => rfl
  | polygon polygon => rfl
  | call callee transform =>
    have bounds := wellFormed.called number callee ⟨lines, transform, found, listed⟩
    simpa [Settings.command, Settings.call, Command.isInside] using bounds

/-- The commands of a program fall into the sections of its routines. -/
theorem sections_commands {program : Program K} (wellFormed : program.WellFormed)
    (layered : ∀ lines ∈ program.routines, Layered (lines.map settings.command)) :
    Sections program.routines.length 1 (program.commands settings) := by
  -- The routines that are left are a tail of all of them, and so are their numbers.
  have tail (earlier later : List (List (Line K))) (split : program.routines = earlier ++ later) :
      Sections program.routines.length (earlier.length + 1)
        ((later.zipIdx earlier.length).flatMap (fun entry =>
          .define (entry.2 + 1) :: entry.1.map settings.command ++ [.finish]) ++
          [settings.call program.root program.transform, .stop]) := by
    induction later generalizing earlier with
    | nil =>
      have all : program.routines.length = earlier.length := by simp [split]
      rw [← all, wellFormed.root]
      exact .top _
    | cons lines rest ih =>
      have member : lines ∈ program.routines := by simp [split]
      have found : program.routine? (earlier.length + 1) = some lines := by
        simp [Program.routine?, split]
      have next := ih (earlier ++ [lines]) (by simp [split])
      rw [List.length_append, List.length_singleton] at next
      have inside : ∀ command ∈ lines.map settings.command,
          command.isInside program.routines.length := isInside_command wellFormed found
      simpa using Sections.define inside (layered lines member) next
  exact tail [] program.routines rfl

omit [Scalar K] in
/-- A program of one routine that only draws. -/
theorem wellFormed_of_runs (runs : List (Run K)) (transform : Transform K) :
    Program.WellFormed ⟨[runs.flatMap Run.lines], 1, transform⟩ := by
  have silent (caller callee : Nat) :
      ¬ Program.Calls ⟨[runs.flatMap Run.lines], 1, transform⟩ caller callee := by
    intro calls
    obtain ⟨lines, placed, found, member⟩ := calls
    cases caller with
    | zero => cases found
    | succ position =>
      have only := List.mem_singleton.mp (List.mem_of_getElem? found)
      simp [only, Run.lines] at member
  refine ⟨rfl, fun caller callee calls => absurd calls (silent caller callee), ?_, ?_⟩
  · intro number round
    obtain ⟨next, first, _⟩ := Relation.TransGen.head'_iff.mp round
    exact silent number next first
  · intro number positive within
    have first : number = 1 := Nat.le_antisymm within positive
    rw [first]

/-- A program that is assembled from what can be reached from its root. -/
theorem Assembled.wellFormed {defined : Defined K} {root : Fragment} {transform : Transform K}
    (assembled : Assembled layout settings defined ⟨defined.routines, defined.number root, transform⟩)
    (acyclic : layout.Acyclic) (first : defined.number root = 1)
    (reachable : ∀ fragment,
      fragment ∈ defined.fragments ↔ ∃ length, Walk (callees layout) root length fragment) :
    Program.WellFormed ⟨defined.routines, defined.number root, transform⟩ := by
  have start : root ∈ defined.fragments := (reachable root).mpr ⟨0, .start⟩
  refine ⟨first, fun _ _ => assembled.called, assembled.calls_acyclic acyclic, ?_⟩
  intro number positive within
  have bound : number - 1 < defined.routines.length := by
    simp only at within
    omega
  have found : Program.routine? ⟨defined.routines, defined.number root, transform⟩ number =
      some defined.routines[number - 1] := by
    obtain ⟨position, rfl⟩ := Nat.exists_eq_succ_of_ne_zero (Nat.ne_of_gt positive)
    exact List.getElem?_eq_getElem bound
  obtain ⟨fragment, member, rfl, _⟩ := assembled.routine?_eq_some_iff.mp found
  obtain ⟨length, way⟩ := (reachable fragment).mp member
  rw [← first]
  exact (assembled.reached_of_walk start way).2

private theorem program_wellFormed {subject : Subject K} {program : Program K} {summary : Summary}
    (acyclic : layout.Acyclic)
    (success : compile layout settings subject = .ok (program, summary)) :
    program.WellFormed ∧ summary.routines = program.routines.length ∧
      Sections program.routines.length 1 (program.commands settings) := by
  rcases compile_cases success with ⟨root, transform, defined, passes, _, outlined, rfl, rfl⟩ |
    ⟨runs, edge, rfl, rfl⟩
  · obtain ⟨assembled, first, reachable⟩ := assembled_of_outline transform outlined
    have wellFormed := assembled.wellFormed acyclic first reachable
    refine ⟨wellFormed, by simp [Defined.routines], sections_commands wellFormed ?_⟩
    intro lines member
    obtain ⟨entry, listed, rfl⟩ := List.mem_map.mp member
    exact layered_body (assembled.made entry listed) defined.number
  · have wellFormed := wellFormed_of_runs runs .identity
    refine ⟨wellFormed, rfl, sections_commands wellFormed ?_⟩
    intro lines member
    rw [List.mem_singleton.mp member]
    cases subject with
    | node key => cases subject_node_eq_ok edge
    | reference reference => exact layered_runs (edge_isDrawn edge)

/-- A compiled program is well formed: it consists of one section for each routine, in the order of
their numbers, and one call of the first. In the draft that it was made from no call waits for a number
and nothing is blank, so that every line of it is written. -/
theorem compile_wellFormed {subject : Subject K} {program : Program K} {summary : Summary}
    (acyclic : layout.Acyclic)
    (success : compile layout settings subject = .ok (program, summary)) :
    program.WellFormed ∧ summary.routines = program.routines.length ∧
      Sections program.routines.length 1 (program.commands settings) ∧
      (∀ command ∈ program.commands settings, command.text ≠ "") ∧
      ∃ draft, Draft.build layout settings subject = .ok draft ∧ draft.Finished program summary ∧
        draft.lines settings = (program.commands settings).map Command.text ∧
        draft.text settings = program.text settings ∧
        program.text settings = String.join ((draft.lines settings).map (· ++ "\n")) := by
  obtain ⟨draft, built, finished⟩ := exists_draft_of_compile success
  have rendered : program.text settings = String.join ((draft.lines settings).map (· ++ "\n")) :=
    (finished.text_eq settings).symm
  obtain ⟨wellFormed, count, sections⟩ := program_wellFormed acyclic success
  exact ⟨wellFormed, count, sections, fun command _ => command.text_ne_empty, draft, built, finished,
    finished.lines_eq settings, finished.text_eq settings, rendered⟩

/-- A cell that is placed twice, once as it is and once twice as large, and the pair of them placed
twice. -/
def gallery : Layout Float where
  name := "gallery"
  nodes := .ofSlots [
    .fresh ⟨"pad", LayerGeometry.add .empty "metal" [.rectangle ⟨0, 0⟩ ⟨1, 1⟩, ⟨[]⟩], []⟩,
    .fresh ⟨"pair", .empty, [("small", .toNode (.ofParts 1 1)),
      ("large", ⟨.node (.ofParts 1 1), .scale 2 2, .rename "metal" "poly"⟩)]⟩,
    .fresh ⟨"row", .empty, [("left", .toNode (.ofParts 2 1)),
      ("right", ⟨.node (.ofParts 2 1), .translate 3 0, .identity⟩)]⟩]
  references := .empty

theorem gallery_acyclic : gallery.Acyclic :=
  Layout.acyclic_of_grounded (Layout.grounded_of_validate rfl)

private theorem gallery_lines :
    (Draft.build gallery ⟨1, 1, false⟩ (.node (.ofParts 3 1))).map (·.lines ⟨1, 1, false⟩) = .ok [
      "DS 1 1 1;", "C 2;", "C 2 T 3 0;", "DF;",
      "DS 2 1 1;", "C 3;", "L poly;", "P 0 0 2 0 2 2 0 2;", "DF;",
      "DS 3 1 1;", "L metal;", "P 0 0 1 0 1 1 0 1;", "DF;", "C 1;", "E"] := by
  decide +kernel

theorem gallery_wellFormed : ∃ program draft,
    compile gallery ⟨1, 1, false⟩ (.node (.ofParts 3 1)) = .ok (program, ⟨3, 1, 4⟩) ∧
      program.WellFormed ∧ Sections program.routines.length 1 (program.commands ⟨1, 1, false⟩) ∧
      Draft.build gallery ⟨1, 1, false⟩ (.node (.ofParts 3 1)) = .ok draft ∧
      draft.Finished program ⟨3, 1, 4⟩ ∧ draft.lines ⟨1, 1, false⟩ = [
        "DS 1 1 1;", "C 2;", "C 2 T 3 0;", "DF;",
        "DS 2 1 1;", "C 3;", "L poly;", "P 0 0 2 0 2 2 0 2;", "DF;",
        "DS 3 1 1;", "L metal;", "P 0 0 1 0 1 1 0 1;", "DF;", "C 1;", "E"] := by
  have summarized : (compile gallery ⟨1, 1, false⟩ (.node (.ofParts 3 1))).map (·.2) =
      .ok ⟨3, 1, 4⟩ := by
    decide +kernel
  obtain ⟨⟨program, summary⟩, compiled, rfl⟩ := map_eq_ok_iff.mp summarized
  obtain ⟨wellFormed, _, sections, _, draft, built, finished, _⟩ :=
    compile_wellFormed gallery_acyclic compiled
  refine ⟨program, draft, compiled, wellFormed, sections, built, finished, ?_⟩
  obtain ⟨other, same, lines⟩ := map_eq_ok_iff.mp gallery_lines
  cases Except.ok.inj (built.symm.trans same)
  exact lines

end MaskLayout.Cif
