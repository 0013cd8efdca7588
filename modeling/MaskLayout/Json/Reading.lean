import MaskLayout.Json.Basic
import MaskLayout.Json.Token

/-!
What is read of a JSON text: a tree in which a fault may stand where a value, a separator or a key
should be. A text is read without knowing what it is for, and who then walks the tree from left to
right meets its faults, and whatever else is wrong with it, in the order of the text.
-/
namespace MaskLayout.Json

mutual

inductive Reading where
  | null
  | bool (value : Bool)
  | number (value : Numeral)
  | string (value : Quoted)
  | array (items : Items)
  | object (members : Members)
  | broken (fault : Fault)

/-- The items of an array, up to its closing bracket or up to what stands instead. -/
inductive Items where
  | closed
  | broken (fault : Fault)
  | item (head : Reading) (rest : Items)

/-- The members of an object. A fault where a key is due, at the start or after a comma, is kept
apart from a fault after a value: what has a single member is wrong already at the comma. -/
inductive Members where
  | closed
  | broken (fault : Fault)
  | keyless (fault : Fault)
  | member (key : Quoted) (value : Reading) (rest : Members)

end

instance : Inhabited Reading := ⟨.broken .malformed⟩

def Items.prepend (earlier : List Reading) (rest : Items) : Items :=
  earlier.foldl (fun rest head => .item head rest) rest

def Members.prepend (earlier : List (Quoted × Reading)) (rest : Members) : Members :=
  earlier.foldl (fun rest member => .member member.1 member.2 rest) rest

/-- A container that is open, with what it holds so far, last one first. -/
inductive Frame where
  | array (earlier : List Reading)
  | object (earlier : List (Quoted × Reading)) (key : Quoted)

/-- What is due next, inside the open containers. -/
inductive Expecting where
  | value (above : List Frame)
  | first (above : List Frame)
  | key (isFirst : Bool) (earlier : List (Quoted × Reading)) (above : List Frame)
  | colon (earlier : List (Quoted × Reading)) (name : Quoted) (above : List Frame)
  | separator (before : Reading) (above : List Frame)
  /-- The whole value, and whether anything follows it. -/
  | nothing (whole : Reading) (trailing : Bool)

namespace Expecting

/-- The containers around a reading that goes no further. -/
def abandon (reading : Reading) (above : List Frame) : Expecting :=
  nothing (above.foldl (fun inner frame => match frame with
    | .array earlier => .array (Items.prepend (inner :: earlier) (.broken .malformed))
    | .object earlier name =>
      .object (Members.prepend ((name, inner) :: earlier) (.broken .malformed)))
    reading) false

/-- A fault where no value is due: either the text has ended or the token is out of place, whether
it is whole or not. -/
def between : Token → Fault
  | .fault .endOfText => .endOfText
  | _ => .malformed

/-- A token where a value is due. -/
def stepValue (above : List Frame) : Token → Expecting
  | .null => separator .null above
  | .bool b => separator (.bool b) above
  | .number numeral => separator (.number numeral) above
  | .string quoted => separator (.string quoted) above
  | .openArray => first above
  | .openObject => key true [] above
  | .fault fault => abandon (.broken fault) above
  | _ => abandon (.broken .malformed) above

/-- A token where a key is due, or the end of an object that is still empty. -/
def stepKey (isFirst : Bool) (earlier : List (Quoted × Reading)) (above : List Frame) :
    Token → Expecting
  | .string name => colon earlier name above
  | token => match isFirst, token with
    | true, .closeObject => separator (.object .closed) above
    | _, token => abandon (.object (Members.prepend earlier (.keyless (between token)))) above

/-- A token after a value. -/
def stepSeparator (before : Reading) (above : List Frame) (token : Token) : Expecting :=
  match above with
  | [] => match token with
    | .fault .endOfText => nothing before false
    | _ => nothing before true
  | .array earlier :: outer => match token with
    | .comma => value (.array (before :: earlier) :: outer)
    | .closeArray => separator (.array (Items.prepend (before :: earlier) .closed)) outer
    | token => abandon (.array (Items.prepend (before :: earlier) (.broken (between token)))) outer
  | .object earlier name :: outer =>
    let members := (name, before) :: earlier
    match token with
    | .comma => key false members outer
    | .closeObject => separator (.object (Members.prepend members .closed)) outer
    | token => abandon (.object (Members.prepend members (.broken (between token)))) outer

def step : Expecting → Token → Expecting
  | value above, token => stepValue above token
  | first above, .closeArray => separator (.array .closed) above
  | first above, token => stepValue (.array [] :: above) token
  | key isFirst earlier above, token => stepKey isFirst earlier above token
  | colon earlier name above, .colon => value (.object earlier name :: above)
  | colon earlier name above, token =>
    abandon (.broken (between token)) (.object earlier name :: above)
  | separator before above, token => stepSeparator before above token
  | nothing whole trailing, _ => nothing whole trailing

end Expecting

/-- The value of a text, and whether anything but blanks follows it. -/
def read (text : List Char) : Reading × Bool :=
  match (tokens text).foldl Expecting.step (.value []) with
  | .nothing whole trailing => (whole, trailing)
  | _ => (.broken .endOfText, false)

/-- A string without anything to escape by a unit, as it would be read. -/
def Quoted.ofString (value : String) : Quoted where
  pieces := value.toList.map fun c =>
    if c.toNat < 0x20 ∧ c.toNat ∉ [8, 9, 10, 12, 13] then .unit c.toNat else .char c
  ending := .closed

mutual

/-- The reading of a value's text. -/
def Reading.ofJson : Json → Reading
  | null => .null
  | bool value => .bool value
  | number value => .number value
  | string value => .string (.ofString value)
  | array items => .array (Items.ofList items)
  | object members => .object (Members.ofList members)

def Items.ofList : List Json → Items
  | [] => .closed
  | head :: rest => .item (Reading.ofJson head) (Items.ofList rest)

def Members.ofList : List (String × Json) → Members
  | [] => .closed
  | (key, value) :: rest => .member (.ofString key) (Reading.ofJson value) (Members.ofList rest)

end

end MaskLayout.Json
