import MaskLayout.Json.Numeral

/-!
JSON values and their text: on one line, or with every item and member on a line of its own,
indented by two spaces.
-/
namespace MaskLayout

inductive Json where
  | null
  | bool (value : Bool)
  | number (value : Json.Numeral)
  | string (value : String)
  | array (items : List Json)
  | object (members : List (String × Json))

namespace Json

/-- A number that is not finite has no JSON form and becomes null. -/
def ofFloat (x : Float) : Json := ((Numeral.ofFloat? x).map number).getD null

def ofNat (n : Nat) : Json := number (Numeral.ofNat n)

def ofOption (value : Option String) : Json := (value.map string).getD null

/-- Only quotes, backslashes and control characters are escaped, the common ones by a letter. -/
def escaped (c : Char) : List Char :=
  if c = '"' then ['\\', '"']
  else if c = '\\' then ['\\', '\\']
  else if 0x20 ≤ c.toNat then [c]
  else if c.toNat = 8 then ['\\', 'b']
  else if c.toNat = 9 then ['\\', 't']
  else if c.toNat = 10 then ['\\', 'n']
  else if c.toNat = 12 then ['\\', 'f']
  else if c.toNat = 13 then ['\\', 'r']
  else ['\\', 'u', '0', '0', Nat.digitChar (c.toNat / 16), Nat.digitChar (c.toNat % 16)]

def quoted (value : String) : List Char := '"' :: value.toList.flatMap escaped ++ ['"']

/-- A line break up to the margin, if there are lines. -/
def lineBreak : Option Nat → List Char
  | none => []
  | some margin => '\n' :: List.replicate margin ' '

def indent (margin : Option Nat) : Option Nat := margin.map (· + 2)

/-- The line break before a closing bracket. -/
def ending (margin : Option Nat) (isEmpty : Bool) : List Char :=
  if isEmpty then [] else lineBreak margin

/-- The comma between neighbours. -/
def separator (isLast : Bool) : List Char := if isLast then [] else [',']

mutual

def chars (margin : Option Nat) : Json → List Char
  | null => ['n', 'u', 'l', 'l']
  | bool true => ['t', 'r', 'u', 'e']
  | bool false => ['f', 'a', 'l', 's', 'e']
  | number value => value.text
  | string value => quoted value
  | array items =>
    '[' :: itemChars (indent margin) items ++ ending margin items.isEmpty ++ [']']
  | object members =>
    '\x7b' :: memberChars (indent margin) members ++ ending margin members.isEmpty ++ ['\x7d']

def itemChars (margin : Option Nat) : List Json → List Char
  | [] => []
  | value :: rest =>
    lineBreak margin ++ chars margin value ++ separator rest.isEmpty ++ itemChars margin rest

def memberChars (margin : Option Nat) : List (String × Json) → List Char
  | [] => []
  | (key, value) :: rest =>
    lineBreak margin ++ quoted key ++ ':' :: ' ' :: chars margin value ++
      separator rest.isEmpty ++ memberChars margin rest

end

/-- The text over several lines. -/
def pretty (value : Json) : String := String.ofList (chars (some 0) value)

/-- The text on one line. -/
def line (value : Json) : String := String.ofList (chars none value)

end Json

end MaskLayout
