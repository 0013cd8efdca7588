/-!
Strings as they are read from a JSON text. Escaped UTF-16 units are kept as written, since whether
they must pair up depends on whether anybody looks at the string.
-/
namespace MaskLayout.Json

/-- Why a text is refused: it ends too early, it is no JSON, or it is JSON of the wrong shape. -/
inductive Defect where
  | truncated
  | malformed
  | unfit
  deriving DecidableEq, Repr

inductive Piece where
  | char (value : Char)
  | unit (value : Nat)
  deriving DecidableEq, Repr

/-- How reading a string ended: at its closing quote, or short of it. -/
inductive Ending where
  | closed
  | short (defect : Defect)
  deriving DecidableEq, Repr

structure Quoted where
  pieces : List Piece
  ending : Ending
  deriving DecidableEq, Repr

namespace Quoted

/-- A unit that begins a pair. -/
def isLeading (unit : Nat) : Bool := 0xD800 ≤ unit ∧ unit < 0xDC00

/-- A unit that ends a pair. -/
def isTrailing (unit : Nat) : Bool := 0xDC00 ≤ unit ∧ unit < 0xE000

def paired (leading trailing : Nat) : Char :=
  Char.ofNat (0x10000 + (leading - 0xD800) * 0x400 + (trailing - 0xDC00))

/-- The characters, with every unit of a pair beside its partner. The first fault decides. -/
def decode (ending : Ending) : List Piece → Except Defect (List Char)
  | [] => match ending with
    | .closed => .ok []
    | .short defect => .error defect
  | .char c :: rest => return c :: (← decode ending rest)
  | [.unit u] =>
    if isTrailing u then .error .malformed
    else match ending with
      | .closed => if isLeading u then .error .malformed else .ok [Char.ofNat u]
      | .short defect => .error defect
  | .unit u :: .char c :: rest =>
    if isTrailing u ∨ isLeading u then .error .malformed
    else return Char.ofNat u :: c :: (← decode ending rest)
  | .unit u :: .unit v :: rest =>
    if isTrailing u then .error .malformed
    else if isLeading u then
      if isTrailing v then return paired u v :: (← decode ending rest) else .error .malformed
    else return Char.ofNat u :: (← decode ending (.unit v :: rest))

/-- The string, if all of it can be read. -/
def string (quoted : Quoted) : Except Defect String :=
  (decode quoted.ending quoted.pieces).map String.ofList

/-- What is asked of a string that nobody looks at: that it is closed. -/
def skip (quoted : Quoted) : Except Defect Unit :=
  match quoted.ending with
  | .closed => .ok ()
  | .short defect => .error defect

end Quoted

end MaskLayout.Json
