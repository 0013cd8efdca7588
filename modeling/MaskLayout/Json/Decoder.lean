import MaskLayout.Json.Reading

/-!
Typed decoding of what was read. A decoder walks a reading from left to right and answers with the
first defect it meets. A scalar of the wrong type is read to its end before its type is looked at; a
container of the wrong type is refused at its opening bracket.
-/
namespace MaskLayout.Json

/-- The defect that a fault amounts to where a value is due. -/
def Fault.defect : Fault → Defect
  | .endOfText | .cutLiteral | .cutNumber => .truncated
  | .malformed => .malformed

/-- The same where only the grammar is checked: there a number may not be cut. -/
def Fault.skipped : Fault → Defect
  | .endOfText | .cutLiteral => .truncated
  | .cutNumber | .malformed => .malformed

/-- The same where nothing but the end of the text can be too short. -/
def Fault.outside : Fault → Defect
  | .endOfText => .truncated
  | .cutLiteral | .cutNumber | .malformed => .malformed

namespace Reading

mutual

/-- Checks the grammar of a value and looks at nothing in it. -/
def skip : Reading → Except Defect Unit
  | .null | .bool _ | .number _ => .ok ()
  | .string value => value.skip
  | .array items => skipItems items
  | .object members => skipMembers members
  | .broken fault => .error fault.skipped

def skipItems : Items → Except Defect Unit
  | .closed => .ok ()
  | .broken fault => .error fault.outside
  | .item head rest => do
    skip head
    skipItems rest

def skipMembers : Members → Except Defect Unit
  | .closed => .ok ()
  | .broken fault | .keyless fault => .error fault.outside
  | .member key value rest => do
    key.skip
    skip value
    skipMembers rest

end

/-- The defect of a value of the wrong type. -/
def mismatch : Reading → Defect
  | .null | .bool _ | .array _ | .object _ => .unfit
  | .number value => if value.toFloat.isFinite then .unfit else .malformed
  | .string value => match value.string with
    | .ok _ => .unfit
    | .error defect => defect
  | .broken fault => fault.defect

def bool? : Reading → Except Defect Bool
  | .bool value => .ok value
  | other => .error other.mismatch

/-- A number within the range of binary64; whole numbers of any size will do. -/
def float? : Reading → Except Defect Float
  | .number value =>
    let x := value.toFloat
    if x.isFinite then .ok x else .error .malformed
  | other => .error other.mismatch

/-- A whole number of at most 32 bits, written as such and without a sign. -/
def word? : Reading → Except Defect UInt32
  | .number value =>
    if value.whole ∧ ¬ value.negative ∧ value.decimal.digits < UInt32.size then
      .ok (UInt32.ofNat value.decimal.digits)
    else .error (number value).mismatch
  | other => .error other.mismatch

def string? : Reading → Except Defect String
  | .string value => value.string
  | other => .error other.mismatch

def unit? : Reading → Except Defect Unit
  | .null => .ok ()
  | other => .error other.mismatch

/-- Null stands for the absence of a value. -/
def option? (decode : Reading → Except Defect α) : Reading → Except Defect (Option α)
  | .null => .ok none
  | other => (decode other).map some

end Reading

namespace Items

def list? (decode : Reading → Except Defect α) : Items → Except Defect (List α)
  | .closed => .ok []
  | .broken fault => .error fault.outside
  | .item head rest => do
    let value ← decode head
    let values ← rest.list? decode
    return value :: values

/-- Nothing may follow the last item that is expected. -/
def finish : Items → Except Defect Unit
  | .closed => .ok ()
  | .broken fault => .error fault.outside
  | .item _ _ => .error .malformed

/-- The first item, where the array must go on. -/
def next : Items → Except Defect (Reading × Items)
  | .closed => .error .unfit
  | .broken fault => .error fault.outside
  | .item head rest => .ok (head, rest)

end Items

namespace Reading

def list? (decode : Reading → Except Defect α) : Reading → Except Defect (List α)
  | .array items => items.list? decode
  | other => .error other.mismatch

def pair? (first : Reading → Except Defect α) (second : Reading → Except Defect β) :
    Reading → Except Defect (α × β)
  | .array items => do
    let (head, items) ← items.next
    let a ← first head
    let (head, items) ← items.next
    let b ← second head
    items.finish
    return (a, b)
  | other => .error other.mismatch

end Reading

/-- The entries of an object whose keys are data. -/
def Members.entries? (decode : Reading → Except Defect α) :
    Members → Except Defect (List (String × α))
  | .closed => .ok []
  | .broken fault | .keyless fault => .error fault.outside
  | .member key value rest => do
    let name ← key.string
    let value ← decode value
    let entries ← rest.entries? decode
    return (name, value) :: entries

namespace Reading

def entries? (decode : Reading → Except Defect α) : Reading → Except Defect (List (String × α))
  | .object members => members.entries? decode
  | other => .error other.mismatch

end Reading

/-- A field of a record that is being put together in `ρ`: whether it is there already, and how it
is added. -/
structure Field (ρ : Type) where
  name : String
  isSet : ρ → Bool
  set : ρ → Reading → Except Defect ρ

namespace Field

def head (name : String) (decode : Reading → Except Defect α) : Field (Option α × ρ) where
  name := name
  isSet record := record.1.isSome
  set record reading := return (some (← decode reading), record.2)

def tail (field : Field ρ) : Field (α × ρ) where
  name := field.name
  isSet record := field.isSet record.2
  set record reading := return (record.1, ← field.set record.2 reading)

/-- Adds the fields of an object in the order of the text. A field that comes twice is refused at
its key, and a member that is no field is only checked for its grammar. -/
def collect (fields : List (Field ρ)) (record : ρ) : Members → Except Defect ρ
  | .closed => .ok record
  | .broken fault | .keyless fault => .error fault.outside
  | .member key value rest => do
    let name ← key.string
    match fields.find? (·.name = name) with
    | some field =>
      if field.isSet record then .error .unfit
      else collect fields (← field.set record value) rest
    | none =>
      value.skip
      collect fields record rest

/-- Adds the fields from an array, in the order of the record. A short array is refused unless the
remaining fields may stay unset. -/
def inOrder (mayStop : Bool) (record : ρ) : List (Field ρ) → Items → Except Defect ρ
  | [], items => do
    items.finish
    return record
  | field :: fields, items =>
    match items with
    | .closed => if mayStop then .ok record else .error .unfit
    | .broken fault => .error fault.outside
    | .item head rest => do inOrder mayStop (← field.set record head) fields rest

end Field

/-- A record written as an object, or as the array of its fields. -/
def Reading.record? (fields : List (Field ρ)) (mayStop : Bool) (empty : ρ) :
    Reading → Except Defect ρ
  | .object members => Field.collect fields empty members
  | .array items => Field.inOrder mayStop empty fields items
  | other => .error other.mismatch

/-- A field that has to be there. -/
def required (value : Option α) : Except Defect α :=
  match value with
  | some value => .ok value
  | none => .error .unfit

/-- The only member of an object that stands for a case with a payload: the name of the case, how
its payload is decoded, and nothing after it. -/
def Members.case? (payload? : String → Option (Reading → Except Defect α)) :
    Members → Except Defect α
  | .closed => .error .malformed
  | .broken fault | .keyless fault => .error fault.outside
  | .member key value rest => do
    let name ← key.string
    match payload? name with
    | none => .error .unfit
    | some decode =>
      let decoded ← decode value
      match rest with
      | .closed => return decoded
      | .broken fault => .error fault.outside
      | _ => .error .malformed

/-- One of several cases: a bare name, or an object with the name and the payload. -/
def Reading.case? (bare? : String → Option α)
    (payload? : String → Option (Reading → Except Defect α)) : Reading → Except Defect α
  | .string name => do
    match bare? (← name.string) with
    | some value => .ok value
    | none => .error .unfit
  | .object members => members.case? payload?
  | .broken fault => .error fault.outside
  | _ => .error .malformed

/-- A whole text, with nothing but blanks after its value. -/
def decode (decoder : Reading → Except Defect α) (text : String) : Except Defect α := do
  let (reading, trailing) := read text.toList
  let value ← decoder reading
  if trailing then .error .malformed else return value

end MaskLayout.Json
