import MaskLayout.Proofs.Json.Numerals
import MaskLayout.Proofs.Outcome
import MaskLayout.Json.Decoder

namespace MaskLayout.Json

/-- How a character of a printed string is read. -/
def Piece.ofChar (c : Char) : Piece :=
  if c.toNat < 0x20 ∧ c.toNat ∉ [8, 9, 10, 12, 13] then .unit c.toNat else .char c

namespace Mode

variable {pieces : List Piece} {rest : List Char}

private theorem hexValue?_digitChar {n : Nat} (small : n < 16) :
    hexValue? (Nat.digitChar n) = some n := by
  revert n
  decide

private theorem utf8Size_digitChar {n : Nat} (small : n < 16) : (Nat.digitChar n).utf8Size = 1 := by
  revert n
  decide

private theorem scan_cons {mode next : Mode} {c : Char} (silent : mode.step c = ([], next)) :
    scan mode (c :: rest) = scan next rest := by
  rw [scan, silent, List.nil_append]

private theorem step_unit {bytes unit digit : Nat} {c : Char} (hexadecimal : hexValue? c = some digit)
    (single : c.utf8Size = 1) :
    step (.unit pieces bytes (some unit)) c =
      ([], if bytes + 1 < 4 then .unit pieces (bytes + 1) (some (16 * unit + digit))
        else string (.unit (16 * unit + digit) :: pieces)) := by
  simp only [step, hexadecimal, single]
  split <;> rfl

private theorem scan_unit {n : Nat} (small : n < 0x20) :
    scan (string pieces)
        ('\\' :: 'u' :: '0' :: '0' :: Nat.digitChar (n / 16) :: Nat.digitChar (n % 16) :: rest) =
      scan (string (.unit n :: pieces)) rest := by
  have high : n / 16 < 16 := by omega
  have low : n % 16 < 16 := by omega
  have value : 16 * (16 * (16 * (16 * 0 + 0) + 0) + n / 16) + n % 16 = n := by omega
  have zero : hexValue? '0' = some 0 := rfl
  calc scan (string pieces)
        ('\\' :: 'u' :: '0' :: '0' :: Nat.digitChar (n / 16) :: Nat.digitChar (n % 16) :: rest)
      = scan (.unit pieces 0 (some 0))
          ('0' :: '0' :: Nat.digitChar (n / 16) :: Nat.digitChar (n % 16) :: rest) := rfl
    _ = scan (string (.unit (16 * (16 * (16 * (16 * 0 + 0) + 0) + n / 16) + n % 16) :: pieces)) rest := by
        rw [scan_cons (step_unit zero rfl), if_pos (by decide), scan_cons (step_unit zero rfl),
          if_pos (by decide), scan_cons (step_unit (hexValue?_digitChar high) (utf8Size_digitChar high)),
          if_pos (by decide), scan_cons (step_unit (hexValue?_digitChar low) (utf8Size_digitChar low)),
          if_neg (by decide)]
    _ = scan (string (.unit n :: pieces)) rest := by rw [value]

private theorem scan_escaped (c : Char) :
    scan (string pieces) (escaped c ++ rest) = scan (string (.ofChar c :: pieces)) rest := by
  by_cases quote : c = '"'
  · rw [quote]
    rfl
  by_cases backslash : c = '\\'
  · rw [backslash]
    rfl
  by_cases plain : 0x20 ≤ c.toNat
  · have large : ¬ c.toNat < 0x20 := by omega
    simp [escaped, scan, step, Piece.ofChar, quote, backslash, plain, large]
  by_cases lettered : c.toNat ∈ [8, 9, 10, 12, 13]
  · have same {n : Nat} (code : c.toNat = n) : c = Char.ofNat n := by
      rw [← code, Char.ofNat_toNat]
    simp only [List.mem_cons, List.not_mem_nil, or_false] at lettered
    rcases lettered with code | code | code | code | code <;>
      (rw [same code]; rfl)
  · have text : escaped c = ['\\', 'u', '0', '0', Nat.digitChar (c.toNat / 16),
        Nat.digitChar (c.toNat % 16)] := by
      simp only [List.mem_cons, List.not_mem_nil, or_false, not_or] at lettered
      simp only [escaped, quote, backslash, plain, lettered, if_false]
    have unit : Piece.ofChar c = .unit c.toNat := if_pos ⟨by omega, lettered⟩
    rw [text, unit]
    exact scan_unit (by omega)

private theorem scan_flatMap_escaped (text : List Char) :
    scan (string pieces) (text.flatMap escaped ++ rest) =
      scan (string ((text.map Piece.ofChar).reverse ++ pieces)) rest := by
  induction text generalizing pieces with
  | nil => rfl
  | cons c text ih =>
    rw [List.flatMap_cons, List.append_assoc, scan_escaped, ih]
    simp

/-- The text of a string is scanned as the string. -/
theorem scan_quoted (value : String) :
    scan blank (quoted value ++ rest) = .string (.ofString value) :: scan blank rest := by
  have opened : scan blank (quoted value ++ rest) =
      scan (string []) (value.toList.flatMap escaped ++ '"' :: rest) := by
    simp [quoted, scan, step, start, isBlank]
  rw [opened, scan_flatMap_escaped]
  simp [scan, step, Quoted.ofString, Piece.ofChar]

end Mode

namespace Quoted

/-- A unit that is a character by itself does not look for a partner. -/
theorem decode_unit {u : Nat} (single : u < 0xD800) (ending : Ending) (rest : List Piece) :
    decode ending (.unit u :: rest) = (decode ending rest).map (Char.ofNat u :: ·) := by
  have leading : isLeading u = false := by simp [isLeading]; omega
  have trailing : isTrailing u = false := by simp [isTrailing]; omega
  match rest with
  | [] => cases ending <;> simp [decode, leading, trailing, Except.map]
  | .char c :: rest =>
    simp only [decode, leading, trailing]
    cases decode ending rest <;> rfl
  | .unit v :: rest =>
    rw [decode]
    simp [leading, trailing]
    rfl

private theorem decode_ofChar (text : List Char) :
    decode .closed (text.map Piece.ofChar) = .ok text := by
  induction text with
  | nil => rfl
  | cons c text ih =>
    rw [List.map_cons, Piece.ofChar]
    split
    · rename_i control
      rw [decode_unit (by omega), ih, Char.ofNat_toNat]
      rfl
    · rw [decode, ih]
      rfl

/-- A string that was printed is read back. -/
@[simp] theorem string_ofString (value : String) : (ofString value).string = .ok value := by
  have read : decode .closed (ofString value).pieces = .ok value.toList := decode_ofChar value.toList
  rw [string, show (ofString value).ending = .closed from rfl, read]
  simp [Except.map]

end Quoted

/-- A value in which every number can be told from its text. -/
inductive Regular : Json → Prop where
  | null : Regular null
  | bool (value : Bool) : Regular (bool value)
  | number {numeral : Numeral} (regular : numeral.IsRegular) : Regular (number numeral)
  | string (value : String) : Regular (string value)
  | array {items : List Json} (each : ∀ item ∈ items, Regular item) : Regular (array items)
  | object {members : List (String × Json)} (each : ∀ member ∈ members, Regular member.2) :
    Regular (object members)

namespace Expecting

/-- What is due after some more text. -/
def after (state : Expecting) (text : List Char) : Expecting :=
  (Mode.scan .blank text).foldl step state

variable {state : Expecting} {above : List Frame} {rest : List Char}

private theorem after_mark {c : Char} (token : Token) (mark : Mode.start c = ([token], .blank)) :
    state.after (c :: rest) = (state.step token).after rest := by
  simp [after, Mode.scan, Mode.step, mark]

private theorem after_space : state.after (' ' :: rest) = state.after rest := rfl

private theorem after_lineBreak (margin : Option Nat) :
    state.after (lineBreak margin ++ rest) = state.after rest := by
  cases margin with
  | none => rfl
  | some margin =>
    change state.after (List.replicate margin ' ' ++ rest) = state.after rest
    induction margin with
    | zero => rfl
    | succ margin ih => exact ih

private theorem after_quoted (value : String) :
    state.after (quoted value ++ rest) = (state.step (.string (.ofString value))).after rest := by
  rw [after, Mode.scan_quoted]
  rfl

private theorem after_numeral {numeral : Numeral} (regular : numeral.IsRegular)
    (delimited : Delimited rest) :
    state.after (numeral.text ++ rest) = (state.step (.number numeral)).after rest := by
  rw [after, Mode.scan_numeral regular delimited]
  rfl

/-- A value may come next, in these containers; at the start of an array it need not. -/
def Awaits (state : Expecting) (above : List Frame) : Prop :=
  ∀ token, token ≠ .closeArray → state.step token = stepValue above token

private theorem awaits_value (above : List Frame) : (value above).Awaits above :=
  fun _ _ => rfl

private theorem awaits_first (above : List Frame) : (first above).Awaits (.array [] :: above) := by
  intro token other
  cases token <;> first | rfl | exact absurd rfl other

/-- The text of a value leads from where the value is due to where it has been read. -/
def Reads (json : Json) : Prop :=
  ∀ (state : Expecting) (above : List Frame), state.Awaits above →
    ∀ (margin : Option Nat) (rest : List Char), Delimited rest →
      state.after (chars margin json ++ rest) = (separator (.ofJson json) above).after rest

end Expecting

private theorem delimited_ending (margin : Option Nat) {c : Char} (closing : c ∈ [']', '\x7d'])
    (rest : List Char) : Delimited (ending margin false ++ c :: rest) := by
  cases margin with
  | none =>
    intro first same
    cases same
    simp only [List.mem_cons, List.not_mem_nil, or_false] at closing ⊢
    exact .inr (.inr closing)
  | some margin =>
    intro first same
    cases same
    simp

private theorem delimited_comma (rest : List Char) : Delimited (',' :: rest) := by
  intro first same
  cases same
  simp

namespace Expecting

variable {state : Expecting} {above : List Frame}

/-- The items of an array that is open, up to its end. -/
theorem after_items {head : Json} {items : List Json} (each : ∀ item ∈ head :: items, Reads item)
    {earlier : List Reading} (awaits : state.Awaits (.array earlier :: above))
    (margin : Option Nat) (rest : List Char) :
    state.after (itemChars (indent margin) (head :: items) ++ (ending margin false ++ ']' :: rest)) =
      (separator (.array (Items.prepend earlier (Items.ofList (head :: items)))) above).after rest := by
  have reads := each head List.mem_cons_self state _ awaits (indent margin)
  induction items generalizing state head earlier with
  | nil =>
    calc state.after (itemChars (indent margin) [head] ++ (ending margin false ++ ']' :: rest))
        = state.after (lineBreak (indent margin) ++
            (chars (indent margin) head ++ (ending margin false ++ ']' :: rest))) := by
          simp [itemChars, Json.separator]
      _ = (separator (.ofJson head) (.array earlier :: above)).after
            (lineBreak margin ++ ']' :: rest) := by
          rw [after_lineBreak, reads _ (delimited_ending margin (by simp) rest)]
          rfl
      _ = (separator (.array (Items.prepend earlier (Items.ofList [head]))) above).after rest := by
          rw [after_lineBreak, after_mark .closeArray rfl]
          simp [step, stepSeparator, Items.prepend, Items.ofList]
  | cons next items ih =>
    calc state.after (itemChars (indent margin) (head :: next :: items) ++
            (ending margin false ++ ']' :: rest))
        = state.after (lineBreak (indent margin) ++ (chars (indent margin) head ++ (',' ::
            (itemChars (indent margin) (next :: items) ++ (ending margin false ++ ']' :: rest))))) := by
          simp [itemChars, Json.separator]
      _ = (value (.array (.ofJson head :: earlier) :: above)).after
            (itemChars (indent margin) (next :: items) ++ (ending margin false ++ ']' :: rest)) := by
          rw [after_lineBreak, reads _ (delimited_comma _), after_mark .comma rfl]
          rfl
      _ = (separator (.array (Items.prepend earlier (Items.ofList (head :: next :: items)))) above).after
            rest := by
          have others : ∀ item ∈ next :: items, Reads item :=
            fun item member => each item (List.mem_cons_of_mem _ member)
          rw [ih others (awaits_value _) (others next List.mem_cons_self _ _ (awaits_value _) _)]
          rfl

/-- A member of an object, up to what separates it from the next. -/
theorem after_member {json : Json} (reads : Reads json) (name : String) (isFirst : Bool)
    (earlier : List (Quoted × Reading)) (margin : Option Nat) {rest : List Char}
    (delimited : Delimited rest) :
    (key isFirst earlier above).after
        (lineBreak margin ++ (quoted name ++ (':' :: ' ' :: (chars margin json ++ rest)))) =
      (separator (.ofJson json) (.object earlier (.ofString name) :: above)).after rest := by
  rw [after_lineBreak, after_quoted, after_mark .colon rfl, after_space]
  exact reads _ _ (awaits_value _) margin rest delimited

/-- The members of an object that is open, up to its end. -/
theorem after_members {head : String × Json} {members : List (String × Json)}
    (each : ∀ member ∈ head :: members, Reads member.2) (isFirst : Bool)
    (earlier : List (Quoted × Reading)) (margin : Option Nat) (rest : List Char) :
    (key isFirst earlier above).after
        (memberChars (indent margin) (head :: members) ++ (ending margin false ++ '\x7d' :: rest)) =
      (separator (.object (Members.prepend earlier (Members.ofList (head :: members)))) above).after
        rest := by
  induction members generalizing isFirst head earlier with
  | nil =>
    obtain ⟨name, json⟩ := head
    have reads : Reads json := each (name, json) List.mem_cons_self
    calc (key isFirst earlier above).after (memberChars (indent margin) [(name, json)] ++
            (ending margin false ++ '\x7d' :: rest))
        = (key isFirst earlier above).after (lineBreak (indent margin) ++ (quoted name ++ (':' :: ' ' ::
            (chars (indent margin) json ++ (ending margin false ++ '\x7d' :: rest))))) := by
          simp [memberChars, Json.separator]
      _ = (separator (.ofJson json) (.object earlier (.ofString name) :: above)).after
            (lineBreak margin ++ '\x7d' :: rest) :=
          after_member reads name isFirst earlier _ (delimited_ending margin (by simp) rest)
      _ = (separator (.object (Members.prepend earlier (Members.ofList [(name, json)]))) above).after
            rest := by
          rw [after_lineBreak, after_mark .closeObject rfl]
          simp [step, stepSeparator, Members.prepend, Members.ofList]
  | cons next members ih =>
    obtain ⟨name, json⟩ := head
    have reads : Reads json := each (name, json) List.mem_cons_self
    have others : ∀ member ∈ next :: members, Reads member.2 :=
      fun member listed => each member (List.mem_cons_of_mem _ listed)
    calc (key isFirst earlier above).after (memberChars (indent margin) ((name, json) :: next :: members) ++
            (ending margin false ++ '\x7d' :: rest))
        = (key isFirst earlier above).after (lineBreak (indent margin) ++ (quoted name ++ (':' :: ' ' ::
            (chars (indent margin) json ++ (',' :: (memberChars (indent margin) (next :: members) ++
              (ending margin false ++ '\x7d' :: rest))))))) := by
          simp [memberChars, Json.separator]
      _ = (key false ((.ofString name, .ofJson json) :: earlier) above).after
            (memberChars (indent margin) (next :: members) ++ (ending margin false ++ '\x7d' :: rest)) := by
          rw [after_member reads name isFirst earlier _ (delimited_comma _), after_mark .comma rfl]
          rfl
      _ = (separator (.object (Members.prepend earlier (Members.ofList ((name, json) :: next :: members))))
            above).after rest := by
          rw [ih others]
          rfl

private theorem reads_of_regular {json : Json} (regular : json.Regular) : Reads json := by
  induction regular with
  | null =>
    intro state above awaits margin rest _
    have scanned : state.after (chars margin null ++ rest) = (state.step .null).after rest := rfl
    rw [scanned, awaits _ (by simp)]
    rfl
  | bool value =>
    intro state above awaits margin rest _
    have scanned : state.after (chars margin (bool value) ++ rest) =
        (state.step (.bool value)).after rest := by
      cases value <;> rfl
    rw [scanned, awaits _ (by simp)]
    rfl
  | number regular =>
    intro state above awaits margin rest delimited
    rw [chars, after_numeral regular delimited, awaits _ (by simp)]
    rfl
  | string value =>
    intro state above awaits margin rest _
    rw [chars, after_quoted, awaits _ (by simp)]
    rfl
  | @array items each ih =>
    intro state above awaits margin rest _
    cases items with
    | nil =>
      change state.after ('[' :: ']' :: rest) = _
      rw [after_mark .openArray rfl, awaits _ (by simp), after_mark .closeArray rfl]
      rfl
    | cons head items =>
      have text : chars margin (.array (head :: items)) ++ rest = '[' ::
          (itemChars (indent margin) (head :: items) ++ (ending margin false ++ ']' :: rest)) := by
        simp [chars]
      rw [text, after_mark .openArray rfl, awaits _ (by simp)]
      exact after_items ih (awaits_first above) margin rest
  | @object members each ih =>
    intro state above awaits margin rest _
    cases members with
    | nil =>
      change state.after ('\x7b' :: '\x7d' :: rest) = _
      rw [after_mark .openObject rfl, awaits _ (by simp), after_mark .closeObject rfl]
      rfl
    | cons head members =>
      have text : chars margin (.object (head :: members)) ++ rest = '\x7b' ::
          (memberChars (indent margin) (head :: members) ++ (ending margin false ++ '\x7d' :: rest)) := by
        simp [chars]
      rw [text, after_mark .openObject rfl, awaits _ (by simp)]
      exact after_members ih true [] margin rest

end Expecting

/-- What was printed is read back, with nothing behind it. -/
theorem read_chars {json : Json} (regular : json.Regular) (margin : Option Nat) :
    read (chars margin json) = (.ofJson json, false) := by
  have reads := Expecting.reads_of_regular regular (.value []) [] (Expecting.awaits_value []) margin []
    (by intro c none; cases none)
  rw [List.append_nil] at reads
  unfold read tokens
  rw [show (Mode.scan .blank (chars margin json)).foldl Expecting.step (.value []) = _ from reads]
  rfl

end MaskLayout.Json
