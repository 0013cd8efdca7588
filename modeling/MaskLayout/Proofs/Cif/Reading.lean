import MaskLayout.Proofs.Cif.Grammar
import MaskLayout.Proofs.Cif.WellFormed
import MaskLayout.Proofs.Layout.Runs

/-!
Reading a compiled program back from its text. What is read are the routines with their numbers and
their lines, and the call that starts them. A name is pasted into the text as it is, so that it ends
at the first semicolon in it: a text is read back if and only if no layer in it has such a name.
-/
namespace MaskLayout.Cif

/-- What the text of a program says: its routines under their numbers, and the call that is the whole
design. -/
structure Listing where
  routines : List (Nat × List Command)
  root : Nat
  placing : Placing Int
  deriving DecidableEq, Repr

/-- The commands that stand between semicolons, each one on a line, and the end. -/
def commands? : List (List Char) → Option (List Command)
  | [['\n', 'E', '\n']] => some [.stop]
  | ('\n' :: line) :: rest => do
    return (← Command.ofWords? (line.splitOn ' ')) :: (← commands? rest)
  | _ => none

mutual

/-- Definitions one after the other, and a call after the last one. -/
def routines? : List Command → Option Listing
  | .define number :: rest => do
    let (body, listing) ← body? rest
    return { listing with routines := (number, body) :: listing.routines }
  | [.call root placing, .stop] => some ⟨[], root, placing⟩
  | _ => none

/-- The commands up to the end of a definition, and what comes after it. -/
def body? : List Command → Option (List Command × Listing)
  | .finish :: rest => do return ([], ← routines? rest)
  | .define _ :: _ | .stop :: _ | [] => none
  | command :: rest => do
    let (body, listing) ← body? rest
    return (command :: body, listing)

end

def read (text : String) : Option Listing := do
  routines? (← commands? (('\n' :: text.toList).splitOn ';'))

variable {K : Type} [Scalar K]

/-- A program as its text has it, with whole coordinates. -/
def Program.listing (program : Program K) (settings : Settings K) : Listing where
  routines := program.routines.zipIdx.map fun (lines, position) =>
    (position + 1, lines.map settings.command)
  root := program.root
  placing := settings.place (placing program.transform)

/-- Commands on lines, with a line break before each of them and after the last one. -/
def onLines (commands : List Command) : List Char :=
  '\n' :: commands.flatMap fun command => command.text.toList ++ ['\n']

private theorem onLines_cons {command : Command} (readable : command.IsReadable) (rest : List Command) :
    onLines (command :: rest) = ('\n' :: [' '].intercalate command.words) ++ ';' :: onLines rest := by
  simp [onLines, Command.toList_text readable]

private theorem commands?_onLines {commands : List Command}
    (readable : ∀ command ∈ commands, command.IsReadable) :
    commands? ((onLines (commands ++ [.stop])).splitOn ';') = some (commands ++ [.stop]) := by
  induction commands with
  | nil => decide
  | cons command rest ih =>
    obtain ⟨first, others⟩ := List.forall_mem_cons.mp readable
    have unended : ';' ∉ '\n' :: [' '].intercalate command.words := by
      simpa using Command.not_mem_intercalate_words first
    obtain ⟨next, more, split⟩ :=
      List.exists_cons_of_ne_nil (List.splitOn_ne_nil ';' (onLines (rest ++ [.stop])))
    rw [List.cons_append, onLines_cons first, List.splitOn_append_cons_self_of_not_mem unended, split]
    rw [split] at ih
    simp [commands?, Command.splitOn_words first, Command.ofWords?_words first, ih others]

private theorem body?_lines (settings : Settings K) (lines : List (Line K)) (rest : List Command) :
    body? (lines.map settings.command ++ .finish :: rest) =
      (routines? rest).map fun listing => (lines.map settings.command, listing) := by
  induction lines with
  | nil => cases after : routines? rest <;> simp [body?, after]
  | cons line lines ih =>
    rw [List.map_cons, List.cons_append]
    cases line <;> cases after : routines? rest <;>
      simp [body?, ih, after, Settings.command, Settings.call]

/-- The commands of a program fall into its routines and the call of the root. -/
theorem routines?_commands (program : Program K) (settings : Settings K) :
    routines? (program.commands settings) = some (program.listing settings) := by
  -- The routines that are left keep their numbers.
  have tail (later : List (List (Line K))) (offset : Nat) :
      routines? ((later.zipIdx offset).flatMap (fun entry =>
        .define (entry.2 + 1) :: (entry.1.map settings.command ++ [.finish])) ++
        [settings.call program.root program.transform, .stop]) =
      some ⟨(later.zipIdx offset).map fun entry => (entry.2 + 1, entry.1.map settings.command),
        program.root, settings.place (placing program.transform)⟩ := by
    induction later generalizing offset with
    | nil => rfl
    | cons lines rest ih => simp [routines?, body?_lines, ih]
  exact tail program.routines 0

private theorem Program.toList_text (program : Program K) (settings : Settings K) :
    '\n' :: (program.text settings).toList = onLines (program.commands settings) := by
  simp [text, onLines, String.toList_join, List.flatMap_map]

/-- The commands of a program that end with a semicolon. -/
def Program.statements (program : Program K) (settings : Settings K) : List Command :=
  (program.routines.zipIdx.flatMap fun (lines, position) =>
    .define (position + 1) :: lines.map settings.command ++ [.finish]) ++
    [settings.call program.root program.transform]

private theorem Program.commands_eq (program : Program K) (settings : Settings K) :
    program.commands settings = program.statements settings ++ [.stop] := by
  simp [commands, statements]

/-- The lines of a program are read again from their text. -/
def Program.IsReadable (program : Program K) (settings : Settings K) : Prop :=
  ∀ lines ∈ program.routines, ∀ line ∈ lines, (settings.command line).IsReadable

namespace Program.IsReadable

variable {program : Program K} {settings : Settings K}

private theorem statements (readable : program.IsReadable settings) :
    ∀ command ∈ program.statements settings, command.IsReadable := by
  intro command member
  rcases List.mem_append.mp member with inside | last
  · obtain ⟨⟨lines, position⟩, listed, inside⟩ := List.mem_flatMap.mp inside
    simp only [List.cons_append, List.mem_cons, List.mem_append, List.mem_map, List.not_mem_nil,
      or_false] at inside
    rcases inside with rfl | ⟨line, among, rfl⟩ | rfl
    · trivial
    · exact readable lines (List.fst_mem_of_mem_zipIdx listed) line among
    · trivial
  · rw [List.mem_singleton.mp last]
    trivial

private theorem read_text (readable : program.IsReadable settings) :
    read (program.text settings) = some (program.listing settings) := by
  rw [read, toList_text, commands_eq, commands?_onLines readable.statements, ← commands_eq]
  exact routines?_commands program settings

end Program.IsReadable

/-- Every routine of a compiled program says itself on which layer its polygons lie. -/
theorem compile_layered {layout : Layout K} {settings : Settings K} {subject : Subject K}
    {program : Program K} {summary : Summary}
    (success : compile layout settings subject = .ok (program, summary)) :
    ∀ lines ∈ program.routines, Layered (lines.map settings.command) := by
  intro lines member
  rcases compile_cases success with ⟨root, transform, defined, passes, _, outlined, rfl, _⟩ |
    ⟨runs, edge, rfl, _⟩
  · obtain ⟨entry, listed, rfl⟩ := List.mem_map.mp member
    exact layered_body ((outline_eq_ok outlined).2 entry listed) defined.number
  · rw [List.mem_singleton.mp member]
    cases subject with
    | node key => cases subject_node_eq_ok edge
    | reference reference => exact layered_runs (edge_isDrawn edge)

/-- All that stands inside the routines. -/
def Listing.lines (listing : Listing) : List Command := listing.routines.flatMap (·.2)

private theorem lines_sublist (commands : List Command) :
    (∀ listing, routines? commands = some listing → listing.lines.Sublist commands) ∧
      ∀ body listing, body? commands = some (body, listing) →
        (body ++ listing.lines).Sublist commands := by
  induction commands with
  | nil => simp [routines?, body?]
  | cons command rest ih =>
    obtain ⟨outside, inside⟩ := ih
    constructor
    · intro listing read
      unfold routines? at read
      split at read
      · rename_i same
        obtain ⟨rfl, rfl⟩ := List.cons.inj same
        obtain ⟨⟨body, after⟩, found, read⟩ := Option.bind_eq_some_iff.mp read
        cases Option.some.inj read
        exact (inside body after found).cons _
      · cases Option.some.inj read
        exact List.nil_sublist _
      · cases read
    · intro body listing read
      unfold body? at read
      split at read
      · rename_i same
        obtain ⟨rfl, rfl⟩ := List.cons.inj same
        obtain ⟨after, found, read⟩ := Option.bind_eq_some_iff.mp read
        cases Option.some.inj read
        exact (outside listing found).cons _
      · cases read
      · cases read
      · cases read
      · rename_i same
        obtain ⟨rfl, rfl⟩ := List.cons.inj same
        obtain ⟨⟨more, after⟩, found, read⟩ := Option.bind_eq_some_iff.mp read
        cases Option.some.inj read
        exact (inside more listing found).cons_cons _

private theorem not_mem_of_commands? {parts : List (List Char)} {commands : List Command}
    (cut : commands? parts = some commands) (clean : ∀ part ∈ parts, ';' ∉ part) {name : String}
    (listed : .layer name ∈ commands) : ';' ∉ name.toList := by
  induction parts generalizing commands with
  | nil => cases cut
  | cons part rest ih =>
    unfold commands? at cut
    split at cut
    · cases Option.some.inj cut
      simp at listed
    · rename_i line more _ same
      obtain ⟨rfl, rfl⟩ := List.cons.inj same
      obtain ⟨command, first, cut⟩ := Option.bind_eq_some_iff.mp cut
      obtain ⟨others, later, cut⟩ := Option.bind_eq_some_iff.mp cut
      cases Option.some.inj cut
      obtain ⟨here, behind⟩ := List.forall_mem_cons.mp clean
      rcases List.mem_cons.mp listed with rfl | member
      · refine Command.not_mem_of_ofWords? (fun word among inside => here ?_) first
        exact List.mem_cons_of_mem _ (mem_of_mem_splitOn among inside)
      · exact ih later behind member
    · cases cut

/-- No layer that is read has a semicolon in its name. -/
theorem not_mem_of_read {text : String} {listing : Listing} (success : read text = some listing)
    {name : String} (listed : .layer name ∈ listing.lines) : ';' ∉ name.toList := by
  obtain ⟨commands, cut, grouped⟩ := Option.bind_eq_some_iff.mp success
  have member := ((lines_sublist commands).1 listing grouped).subset listed
  exact not_mem_of_commands? cut (fun _ => not_mem_of_mem_splitOn) member

/-- The names of layers in a program, as often as it switches to them. -/
def Program.layerNames {K : Type} (program : Program K) : List String :=
  program.routines.flatten.filterMap fun
    | .layer name => some name
    | .polygon _ | .call _ _ => none

omit [Scalar K] in
private theorem Program.mem_layerNames {program : Program K} {name : String} :
    name ∈ program.layerNames ↔ ∃ lines ∈ program.routines, .layer name ∈ lines := by
  rw [layerNames, List.mem_filterMap]
  constructor
  · rintro ⟨line, member, named⟩
    obtain ⟨lines, listed, inside⟩ := List.mem_flatten.mp member
    cases line with
    | layer other =>
      cases Option.some.inj named
      exact ⟨lines, listed, inside⟩
    | polygon polygon => cases named
    | call routine transform => cases named
  · rintro ⟨lines, listed, inside⟩
    exact ⟨.layer name, List.mem_flatten.mpr ⟨lines, listed, inside⟩, rfl⟩

private theorem Program.mem_lines_listing {program : Program K} {name : String}
    (written : name ∈ program.layerNames) (settings : Settings K) :
    .layer name ∈ (program.listing settings).lines := by
  obtain ⟨lines, member, listed⟩ := mem_layerNames.mp written
  obtain ⟨position, found⟩ := List.mem_iff_getElem?.mp member
  refine List.mem_flatMap.mpr ⟨(position + 1, lines.map settings.command), ?_, ?_⟩
  · exact List.mem_map.mpr ⟨(lines, position), List.mk_mem_zipIdx_iff_getElem?.mpr found, rfl⟩
  · exact List.mem_map.mpr ⟨.layer name, listed, rfl⟩

/-- A compiled program is read back from its text, as long as no layer in it has a semicolon in its
name, and only then. -/
theorem text_reads_back {layout : Layout K} {settings : Settings K} {subject : Subject K}
    {program : Program K} {summary : Summary}
    (success : compile layout settings subject = .ok (program, summary)) :
    read (program.text settings) = some (program.listing settings) ↔
      ∀ name ∈ program.layerNames, ';' ∉ name.toList := by
  constructor
  · intro reads name written
    exact not_mem_of_read reads (Program.mem_lines_listing written settings)
  · intro clean
    refine Program.IsReadable.read_text fun lines member line listed => ?_
    cases line with
    | layer name => exact clean name (Program.mem_layerNames.mpr ⟨lines, member, listed⟩)
    | polygon polygon =>
      obtain ⟨before, after, split⟩ :=
        List.append_of_mem (List.mem_map_of_mem (f := settings.command) listed)
      exact ((compile_layered success lines member).drawn before _ after split).1
    | call routine transform => trivial

/-- Cells on layers without a name, with blanks and with a line break in their names, one of them
upside down. -/
def labelled : Layout Float where
  name := "labelled"
  nodes := .ofSlots [
    .fresh ⟨"pad", (LayerGeometry.add .empty "" [.rectangle ⟨0, 0⟩ ⟨1, 1⟩]).add "L 2\nC 1"
      [.rectangle ⟨-1, 0⟩ ⟨1, 1⟩], []⟩,
    .fresh ⟨"pair", LayerGeometry.add .empty " metal  1 " [.rectangle ⟨0, 0⟩ ⟨3, 1⟩],
      [("left", .toNode (.ofParts 1 1)), ("right", ⟨.node (.ofParts 1 1),
        Transform.compose (.translate 2 0) .flipY, .identity⟩)]⟩]
  references := .empty

theorem labelled_reads_back : ∃ program,
    compile labelled ⟨1, 1, false⟩ (.node (.ofParts 2 1)) = .ok (program, ⟨2, 0, 3⟩) ∧
      program.layerNames = [" metal  1 ", "", "L 2\nC 1"] ∧
      read (program.text ⟨1, 1, false⟩) = some (program.listing ⟨1, 1, false⟩) := by
  have named : (compile labelled ⟨1, 1, false⟩ (.node (.ofParts 2 1))).map
      (fun (program, summary) => (program.layerNames, summary)) =
        .ok ([" metal  1 ", "", "L 2\nC 1"], ⟨2, 0, 3⟩) := by
    decide +kernel
  obtain ⟨⟨program, summary⟩, compiled, same⟩ := map_eq_ok_iff.mp named
  obtain ⟨names, rfl⟩ := Prod.mk.inj same
  exact ⟨program, compiled, names, (text_reads_back compiled).mpr (by rw [names]; decide)⟩

/-- Two nodes, the second of which has what the text says of the first in the name of its layer. -/
def forged : List (Layout.Edit Float) := [
  .addNode (((NodeDraft.empty "two").addPolygons "a" [.rectangle ⟨0, 0⟩ ⟨1, 1⟩]).addPolygons "b"
    [.rectangle ⟨0, 0⟩ ⟨1, 1⟩]),
  .addNode ((NodeDraft.empty "one").addPolygons "a;\nP 0 0 1 0 1 1 0 1;\nL b"
    [.rectangle ⟨0, 0⟩ ⟨1, 1⟩])]

/-- No reader can tell from every text which program it was written for. -/
theorem text_ambiguous : ¬ ∃ reader : String → Option Listing,
    ∀ (edits : List (Layout.Edit Float)) settings subject program summary,
      compile ((Layout.empty "").run edits) settings subject = .ok (program, summary) →
        reader (program.text settings) = some (program.listing settings) := by
  rintro ⟨reader, reads⟩
  let text := "DS 1 1 1;\nL a;\nP 0 0 1 0 1 1 0 1;\nL b;\nP 0 0 1 0 1 1 0 1;\nDF;\nC 1;\nE\n"
  let square : Command := .polygon [(0, 0), (1, 0), (1, 1), (0, 1)]
  have means (key : NodeKey) (lines : List Command)
      (compiled : (compile ((Layout.empty "").run forged) ⟨1, 1, false⟩ (.node key)).map
        (fun (program, _) => (program.text ⟨1, 1, false⟩, program.listing ⟨1, 1, false⟩)) =
          .ok (text, ⟨[(1, lines)], 1, ⟨false, none, none⟩⟩)) :
      reader text = some ⟨[(1, lines)], 1, ⟨false, none, none⟩⟩ := by
    obtain ⟨⟨program, summary⟩, success, same⟩ := map_eq_ok_iff.mp compiled
    obtain ⟨written, listed⟩ := Prod.mk.inj same
    rw [← written, ← listed]
    exact reads forged _ _ program summary success
  have two := means (.ofParts 1 1) [.layer "a", square, .layer "b", square] (by decide +kernel)
  have one := means (.ofParts 2 1) [.layer "a;\nP 0 0 1 0 1 1 0 1;\nL b", square] (by decide +kernel)
  rw [two] at one
  simp at one

end MaskLayout.Cif
