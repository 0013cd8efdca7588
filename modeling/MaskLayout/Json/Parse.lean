import MaskLayout.Json.Decoder

/-! Reading a text whose shape is not known beforehand. -/
namespace MaskLayout.Json

mutual

/-- The value that was read, if all of it is there. -/
def Reading.value? : Reading → Except Defect Json
  | .null => .ok null
  | .bool b => .ok (bool b)
  | .number numeral => .ok (number numeral)
  | .string quoted => quoted.string.map string
  | .array items => items.values?.map array
  | .object members => members.values?.map object
  | .broken fault => .error fault.defect

def Items.values? : Items → Except Defect (List Json)
  | .closed => .ok []
  | .broken fault => .error fault.outside
  | .item head rest => do return (← head.value?) :: (← rest.values?)

def Members.values? : Members → Except Defect (List (String × Json))
  | .closed => .ok []
  | .broken fault | .keyless fault => .error fault.outside
  | .member key value rest => do
    let name ← key.string
    return (name, ← value.value?) :: (← rest.values?)

end

def parse (text : String) : Except Defect Json := decode Reading.value? text

end MaskLayout.Json
