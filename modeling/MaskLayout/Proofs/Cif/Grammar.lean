import Mathlib
import MaskLayout.Cif.Command

namespace MaskLayout.Cif

abbrev Word := List Char

namespace Word

def ofNat (number : Nat) : Word := number.repr.toList

def ofInt (number : Int) : Word := number.repr.toList

def nat? (word : Word) : Option Nat := (String.ofList word).toNat?

def int? (word : Word) : Option Int := (String.ofList word).toInt?

/-- Text that is cut neither by blanks nor by semicolons. -/
def IsWhole (word : Word) : Prop := ' ' ∉ word ∧ ';' ∉ word

@[simp] theorem nat?_ofNat (number : Nat) : nat? (ofNat number) = some number := by
  rw [nat?, ofNat, String.ofList_toList, Nat.toNat?_repr]

@[simp] theorem int?_ofInt (number : Int) : int? (ofInt number) = some number := by
  rw [int?, ofInt, String.ofList_toList, Int.toInt?_repr]

private theorem isWhole_of_isDigit {word : Word} (digits : ∀ c ∈ word, c.isDigit) : word.IsWhole :=
  ⟨fun blank => absurd (digits ' ' blank) (by decide),
    fun semicolon => absurd (digits ';' semicolon) (by decide)⟩

private theorem isWhole_ofNat (number : Nat) : (ofNat number).IsWhole := by
  refine isWhole_of_isDigit fun c member => ?_
  rw [ofNat, Nat.toList_repr] at member
  exact Nat.isDigit_of_mem_toDigits (by omega) (by omega) member

private theorem isWhole_ofInt (number : Int) : (ofInt number).IsWhole := by
  cases number with
  | ofNat number => exact isWhole_ofNat number
  | negSucc number =>
    have negative : ofInt (.negSucc number) = '-' :: ofNat (number + 1) := by
      simp [ofInt, ofNat, Int.repr]
    obtain ⟨unbroken, unended⟩ := isWhole_ofNat (number + 1)
    rw [negative]
    exact ⟨by simpa using unbroken, by simpa using unended⟩

end Word

/-- Words that come in pairs of numbers. -/
def pairs? : List Word → Option (List (Int × Int))
  | [] => some []
  | [_] => none
  | x :: y :: rest => do return (← x.int?, ← y.int?) :: (← pairs? rest)

/-- A part of a call that may stand behind a mark, and the words after it. -/
def part? (mark : Char) : List Word → Option (Option (Int × Int) × List Word)
  | [first] :: x :: y :: rest =>
    if first = mark then do return (some (← Word.int? x, ← Word.int? y), rest)
    else some (none, [first] :: x :: y :: rest)
  | words => some (none, words)

/-- Whether a call is mirrored, and the words after its mark. -/
def mirror : List Word → Bool × List Word
  | ['M', 'Y'] :: rest => (true, rest)
  | words => (false, words)

def placing? (words : List Word) : Option (Placing Int) := do
  let (direction, rest) ← part? 'R' (mirror words).2
  let (shift, rest) ← part? 'T' rest
  if rest = [] then some ⟨(mirror words).1, direction, shift⟩ else none

def Command.ofWords? : List Word → Option Command
  | [['D', 'S'], number, ['1'], ['1']] => (Word.nat? number).map define
  | ['L'] :: first :: more => some (layer (String.ofList ([' '].intercalate (first :: more))))
  | ['P'] :: first :: more => (pairs? (first :: more)).map polygon
  | ['C'] :: number :: more => do return call (← Word.nat? number) (← placing? more)
  | [['D', 'F']] => some finish
  | _ => none

def pairWords (pair : Int × Int) : List Word := [.ofInt pair.1, .ofInt pair.2]

def partWords (mark : Char) : Option (Int × Int) → List Word
  | some pair => [mark] :: pairWords pair
  | none => []

def placingWords (placing : Placing Int) : List Word :=
  (if placing.mirrored then [['M', 'Y']] else []) ++
    (partWords 'R' placing.direction ++ partWords 'T' placing.shift)

/-- The words of a command; those of a layer's name are what lies between its blanks. -/
def Command.words : Command → List Word
  | define routine => [['D', 'S'], .ofNat routine, ['1'], ['1']]
  | layer name => ['L'] :: name.toList.splitOn ' '
  | polygon corners => ['P'] :: corners.flatMap pairWords
  | call routine placing => ['C'] :: .ofNat routine :: placingWords placing
  | finish => [['D', 'F']]
  | stop => [['E']]

private theorem pairs?_words (corners : List (Int × Int)) :
    pairs? (corners.flatMap pairWords) = some corners := by
  induction corners with
  | nil => rfl
  | cons corner rest ih => simp [pairs?, pairWords, ih]

private theorem part?_words (mark : Char) (pair? : Option (Int × Int)) {rest : List Word}
    (other : ∀ word ∈ rest.head?, word ≠ [mark]) :
    part? mark (partWords mark pair? ++ rest) = some (pair?, rest) := by
  cases pair? with
  | some pair => simp [partWords, pairWords, part?]
  | none =>
    simp only [partWords, List.nil_append]
    unfold part?
    split
    · rename_i first x y rest
      have different : first ≠ mark := fun same => other [first] rfl (by rw [same])
      rw [if_neg different]
    · rfl

private theorem placing?_words (placing : Placing Int) :
    placing? (placingWords placing) = some placing := by
  obtain ⟨mirrored, direction, shift⟩ := placing
  have start : mirror (placingWords ⟨mirrored, direction, shift⟩) =
      (mirrored, partWords 'R' direction ++ partWords 'T' shift) := by
    cases mirrored <;> cases direction <;> cases shift <;> rfl
  have unturned : ∀ word ∈ (partWords 'T' shift).head?, word ≠ ['R'] := by
    cases shift <;> simp [partWords]
  have turned := part?_words 'R' direction unturned
  have shifted : part? 'T' (partWords 'T' shift ++ []) = some (shift, []) :=
    part?_words 'T' shift (by simp)
  rw [List.append_nil] at shifted
  simp [placing?, start, turned, shifted]

namespace Command

/-- A command that is read again from its text: the name of a layer has no semicolon in it, and a
polygon has corners. -/
def IsReadable : Command → Prop
  | layer name => ';' ∉ name.toList
  | polygon corners => corners ≠ []
  | define _ | call _ _ | finish => True
  | stop => False

theorem ofWords?_words {command : Command} (readable : command.IsReadable) :
    ofWords? command.words = some command := by
  cases command with
  | define routine => simp [ofWords?, words]
  | layer name =>
    obtain ⟨first, more, split⟩ := List.exists_cons_of_ne_nil (List.splitOn_ne_nil ' ' name.toList)
    have joined : [' '].intercalate (name.toList.splitOn ' ') = name.toList :=
      List.intercalate_splitOn ' '
    rw [split] at joined
    simp [ofWords?, words, split, joined]
  | polygon corners =>
    obtain ⟨corner, rest, rfl⟩ := List.exists_cons_of_ne_nil readable
    have read := pairs?_words (corner :: rest)
    simp only [List.flatMap_cons, pairWords, List.cons_append, List.nil_append] at read
    simp [ofWords?, words, pairWords, read]
  | call routine placing => simp [ofWords?, words, placing?_words]
  | finish => rfl
  | stop => exact readable.elim

private theorem toList_pairText (pair : Int × Int) :
    (pairText pair).toList = [' '].intercalate (pairWords pair) := by
  simp [pairText, pairWords, Word.ofInt, toString]

private theorem intercalate_pairWords (corners : List (Int × Int)) :
    [' '].intercalate (corners.flatMap pairWords) =
      [' '].intercalate (corners.map fun corner => (pairText corner).toList) := by
  induction corners with
  | nil => rfl
  | cons corner rest ih =>
    cases rest with
    | nil => simp [toList_pairText]
    | cons next more =>
      have behind : (next :: more).flatMap pairWords ≠ [] := by simp [pairWords]
      rw [List.flatMap_cons, List.map_cons, List.intercalate_cons_of_ne_nil (by simp), ← ih,
        toList_pairText]
      simp only [pairWords, List.cons_append, List.nil_append, List.intercalate_cons_cons,
        List.intercalate_singleton, List.append_assoc]
      rw [List.intercalate_cons_of_ne_nil behind, List.append_assoc, List.singleton_append]

/-- A command is written as its words with blanks between them, and a semicolon. -/
theorem toList_text {command : Command} (readable : command.IsReadable) :
    command.text.toList = [' '].intercalate command.words ++ [';'] := by
  cases command with
  | define routine => simp [text, words, Word.ofNat, toString]
  | layer name =>
    have joined : [' '].intercalate (name.toList.splitOn ' ') = name.toList :=
      List.intercalate_splitOn ' '
    rw [words, List.intercalate_cons_of_ne_nil (List.splitOn_ne_nil ' ' name.toList), joined]
    simp [text, toString]
  | polygon corners =>
    have behind : corners.flatMap pairWords ≠ [] := by
      obtain ⟨corner, rest, rfl⟩ := List.exists_cons_of_ne_nil readable
      simp [pairWords]
    rw [words, List.intercalate_cons_of_ne_nil behind, intercalate_pairWords]
    simp [text, Function.comp_def]
  | call routine placing =>
    obtain ⟨mirrored, direction, shift⟩ := placing
    cases mirrored <;> cases direction <;> cases shift <;>
      simp [text, words, placingWords, partWords, partText, toList_pairText, pairWords, Word.ofNat,
        toString]
  | finish => rfl
  | stop => exact readable.elim

end Command

section Cutting

variable {mark c : Char} {parts : List (List Char)} {text : List Char}

private theorem mem_intercalate (member : c ∈ [mark].intercalate parts) :
    c = mark ∨ ∃ part ∈ parts, c ∈ part := by
  induction parts with
  | nil => simp at member
  | cons first rest ih =>
    by_cases last : rest = []
    · subst last
      exact .inr ⟨first, by simp, by simpa using member⟩
    · rw [List.intercalate_cons_of_ne_nil last, List.append_assoc, List.mem_append, List.mem_append,
        List.mem_singleton] at member
      rcases member with here | same | later
      · exact .inr ⟨first, by simp, here⟩
      · exact .inl same
      · rcases ih later with same | ⟨part, listed, inside⟩
        · exact .inl same
        · exact .inr ⟨part, List.mem_cons_of_mem _ listed, inside⟩

private theorem mem_intercalate_of_mem {part : List Char} (listed : part ∈ parts) (inside : c ∈ part) :
    c ∈ [mark].intercalate parts := by
  induction parts with
  | nil => cases listed
  | cons first rest ih =>
    by_cases last : rest = []
    · subst last
      rw [List.mem_singleton.mp listed] at inside
      simpa using inside
    · rw [List.intercalate_cons_of_ne_nil last, List.mem_append]
      rcases List.mem_cons.mp listed with rfl | later
      · exact .inl (List.mem_append_left _ inside)
      · exact .inr (ih later)

/-- No part of a text has the mark in it at which the text is cut. -/
theorem not_mem_of_mem_splitOn {part : List Char} (listed : part ∈ text.splitOn mark) :
    mark ∉ part := by
  induction text generalizing part with
  | nil =>
    rw [List.splitOn_nil, List.mem_singleton] at listed
    simp [listed]
  | cons c rest ih =>
    rw [List.splitOn_cons_eq_if_modifyHead] at listed
    obtain ⟨first, more, split⟩ := List.exists_cons_of_ne_nil (List.splitOn_ne_nil mark rest)
    split at listed
    · rcases List.mem_cons.mp listed with rfl | later
      · simp
      · exact ih later
    · rename_i other
      rw [split, List.modifyHead_cons] at listed
      rcases List.mem_cons.mp listed with rfl | later
      · have here := ih (split ▸ List.mem_cons_self)
        simp only [beq_iff_eq] at other
        exact fun again => (List.mem_cons.mp again).elim (fun same => other same.symm) here
      · exact ih (split ▸ List.mem_cons_of_mem _ later)

theorem mem_of_mem_splitOn {part : List Char} (listed : part ∈ text.splitOn mark) (inside : c ∈ part) :
    c ∈ text := by
  have joined : [mark].intercalate (text.splitOn mark) = text := List.intercalate_splitOn mark
  rw [← joined]
  exact mem_intercalate_of_mem listed inside

end Cutting

namespace Command

private theorem isWhole_of_mem_pairWords {pair : Int × Int} {word : Word}
    (listed : word ∈ pairWords pair) :
    word.IsWhole := by
  simp only [pairWords, List.mem_cons, List.not_mem_nil, or_false] at listed
  rcases listed with rfl | rfl
  · exact Word.isWhole_ofInt pair.1
  · exact Word.isWhole_ofInt pair.2

private theorem isWhole_of_mem_partWords {mark : Char} (whole : Word.IsWhole [mark])
    {part : Option (Int × Int)} {word : Word} (listed : word ∈ partWords mark part) : word.IsWhole := by
  cases part with
  | none => cases listed
  | some pair =>
    rcases List.mem_cons.mp listed with rfl | later
    · exact whole
    · exact isWhole_of_mem_pairWords later

private theorem isWhole_of_mem_words {command : Command} (readable : command.IsReadable) {word : Word}
    (listed : word ∈ command.words) : word.IsWhole := by
  cases command with
  | define routine =>
    simp only [words, List.mem_cons, List.not_mem_nil, or_false] at listed
    rcases listed with rfl | rfl | rfl | rfl
    · exact ⟨by decide, by decide⟩
    · exact Word.isWhole_ofNat routine
    · exact ⟨by decide, by decide⟩
    · exact ⟨by decide, by decide⟩
  | layer name =>
    rcases List.mem_cons.mp listed with rfl | part
    · exact ⟨by decide, by decide⟩
    · exact ⟨not_mem_of_mem_splitOn part, fun inside => readable (mem_of_mem_splitOn part inside)⟩
  | polygon corners =>
    rcases List.mem_cons.mp listed with rfl | number
    · exact ⟨by decide, by decide⟩
    · obtain ⟨corner, _, inside⟩ := List.mem_flatMap.mp number
      exact isWhole_of_mem_pairWords inside
  | call routine placing =>
    simp only [words, placingWords, List.mem_cons, List.mem_append] at listed
    rcases listed with rfl | rfl | turned | direction | shift
    · exact ⟨by decide, by decide⟩
    · exact Word.isWhole_ofNat routine
    · split at turned
      · rw [List.mem_singleton.mp turned]
        exact ⟨by decide, by decide⟩
      · cases turned
    · exact isWhole_of_mem_partWords ⟨by decide, by decide⟩ direction
    · exact isWhole_of_mem_partWords ⟨by decide, by decide⟩ shift
  | finish =>
    rw [List.mem_singleton.mp listed]
    exact ⟨by decide, by decide⟩
  | stop => exact readable.elim

/-- The text of a command is cut at its blanks into its words. -/
theorem splitOn_words {command : Command} (readable : command.IsReadable) :
    ([' '].intercalate command.words).splitOn ' ' = command.words := by
  refine List.splitOn_intercalate ' ' (fun word listed => (isWhole_of_mem_words readable listed).1) ?_
  cases command <;> simp [words]

theorem not_mem_intercalate_words {command : Command} (readable : command.IsReadable) :
    ';' ∉ [' '].intercalate command.words := by
  intro inside
  rcases mem_intercalate inside with same | ⟨word, listed, inside⟩
  · exact absurd same (by decide)
  · exact (isWhole_of_mem_words readable listed).2 inside

/-- What is read has no semicolon in the name of a layer, as no word had one. -/
theorem not_mem_of_ofWords? {words : List Word} (clean : ∀ word ∈ words, ';' ∉ word) {name : String}
    (read : ofWords? words = some (layer name)) : ';' ∉ name.toList := by
  unfold ofWords? at read
  split at read
  · simp at read
  · rename_i first more
    cases Option.some.inj read
    rw [String.toList_ofList]
    intro inside
    rcases mem_intercalate inside with same | ⟨word, listed, inside⟩
    · exact absurd same (by decide)
    · exact clean word (List.mem_cons_of_mem _ listed) inside
  · simp at read
  · obtain ⟨_, _, read⟩ := Option.bind_eq_some_iff.mp read
    obtain ⟨_, _, read⟩ := Option.bind_eq_some_iff.mp read
    cases Option.some.inj read
  · cases read
  · cases read

end Command

end MaskLayout.Cif
