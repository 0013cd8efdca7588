import MaskLayout.Json.Numeral
import MaskLayout.Json.Quoted

/-!
The tokens of a JSON text. Scanning goes character by character through a finite set of modes and
never fails: what cannot be a token stands in the list as a fault, which is then its last token.
-/
namespace MaskLayout.Json

/-- Where a token should be, the text ends, is cut inside a literal or a number, or makes no sense. -/
inductive Fault where
  | endOfText
  | cutLiteral
  | cutNumber
  | malformed
  deriving DecidableEq, Repr

inductive Token where
  | openArray
  | closeArray
  | openObject
  | closeObject
  | comma
  | colon
  | null
  | bool (value : Bool)
  | number (value : Numeral)
  | string (value : Quoted)
  | fault (fault : Fault)
  deriving DecidableEq, Repr

/-- The parts of a number, each named for what has just been read. -/
inductive NumberPhase where
  | minus
  | zero
  | whole
  | point
  | fraction
  | power
  | powerSign
  | powerDigits
  deriving DecidableEq, Repr

/-- A number read so far: all digits before the power of ten, how many of them follow the point, and
the power. -/
structure NumberDraft where
  phase : NumberPhase
  negative : Bool
  digits : Nat
  places : Nat
  powerNegative : Bool
  powerDigits : Nat
  deriving DecidableEq, Repr

namespace NumberDraft

def numeral (draft : NumberDraft) : Numeral where
  negative := draft.negative
  decimal :=
    let power : Int := if draft.powerNegative then -draft.powerDigits else draft.powerDigits
    ⟨draft.digits, power - draft.places⟩
  whole := draft.phase = .zero ∨ draft.phase = .whole

/-- Whether the number may end here. -/
def isComplete (draft : NumberDraft) : Bool :=
  draft.phase matches .zero | .whole | .fraction | .powerDigits

def digitValue (c : Char) : Nat := c.toNat - '0'.toNat

def shift (draft : NumberDraft) (c : Char) : Nat := 10 * draft.digits + digitValue c

/-- The number with one more character, `none` if the character is not part of it. -/
def next? (draft : NumberDraft) (c : Char) : Option NumberDraft :=
  match draft.phase with
  | .minus =>
    if c = '0' then some { draft with phase := .zero }
    else if c.isDigit then some { draft with phase := .whole, digits := digitValue c }
    else none
  | .zero =>
    if c = '.' then some { draft with phase := .point }
    else if c = 'e' ∨ c = 'E' then some { draft with phase := .power }
    else none
  | .whole =>
    if c.isDigit then some { draft with digits := draft.shift c }
    else if c = '.' then some { draft with phase := .point }
    else if c = 'e' ∨ c = 'E' then some { draft with phase := .power }
    else none
  | .point | .fraction =>
    if c.isDigit then
      some { draft with phase := .fraction, digits := draft.shift c, places := draft.places + 1 }
    else if draft.phase = .fraction ∧ (c = 'e' ∨ c = 'E') then some { draft with phase := .power }
    else none
  | .power =>
    if c = '+' then some { draft with phase := .powerSign }
    else if c = '-' then some { draft with phase := .powerSign, powerNegative := true }
    else if c.isDigit then some { draft with phase := .powerDigits, powerDigits := digitValue c }
    else none
  | .powerSign | .powerDigits =>
    if c.isDigit then
      some { draft with
        phase := .powerDigits, powerDigits := 10 * draft.powerDigits + digitValue c }
    else none

def start (phase : NumberPhase) (negative : Bool) (digits : Nat) : NumberDraft :=
  ⟨phase, negative, digits, 0, false, 0⟩

end NumberDraft

/-- What a scan is in the middle of. Pieces of a string are kept last one first. -/
inductive Mode where
  | blank
  | literal (token : Token) (due : List Char)
  | number (draft : NumberDraft)
  | string (pieces : List Piece)
  | escape (pieces : List Piece)
  /-- The bytes seen after the mark of a unit, and the unit while they are all hexadecimal. -/
  | unit (pieces : List Piece) (bytes : Nat) (value? : Option Nat)
  | stopped
  deriving DecidableEq, Repr

namespace Mode

def isBlank (c : Char) : Bool := c = ' ' ∨ c = '\t' ∨ c = '\n' ∨ c = '\r'

/-- The first character of a token. -/
def start (c : Char) : List Token × Mode :=
  if isBlank c then ([], blank)
  else if c.isDigit ∧ c ≠ '0' then
    ([], number (.start .whole false (NumberDraft.digitValue c)))
  else match c with
    | '[' => ([.openArray], blank)
    | ']' => ([.closeArray], blank)
    | '\x7b' => ([.openObject], blank)
    | '\x7d' => ([.closeObject], blank)
    | ',' => ([.comma], blank)
    | ':' => ([.colon], blank)
    | 'n' => ([], literal .null ['u', 'l', 'l'])
    | 't' => ([], literal (.bool true) ['r', 'u', 'e'])
    | 'f' => ([], literal (.bool false) ['a', 'l', 's', 'e'])
    | '"' => ([], string [])
    | '-' => ([], number (.start .minus true 0))
    | '0' => ([], number (.start .zero false 0))
    | _ => ([.fault .malformed], stopped)

/-- The scan stops at a string that cannot be finished. -/
def breakOff (pieces : List Piece) : List Token × Mode :=
  ([.string ⟨pieces.reverse, .short .malformed⟩, .fault .malformed], stopped)

/-- The character that a letter after a backslash stands for. -/
def escapeOf? : Char → Option Char
  | '"' => some '"'
  | '\\' => some '\\'
  | '/' => some '/'
  | 'b' => some (Char.ofNat 8)
  | 'f' => some (Char.ofNat 12)
  | 'n' => some '\n'
  | 'r' => some '\r'
  | 't' => some '\t'
  | _ => none

def hexValue? (c : Char) : Option Nat :=
  if '0' ≤ c ∧ c ≤ '9' then some (c.toNat - '0'.toNat)
  else if 'a' ≤ c ∧ c ≤ 'f' then some (c.toNat - 'a'.toNat + 10)
  else if 'A' ≤ c ∧ c ≤ 'F' then some (c.toNat - 'A'.toNat + 10)
  else none

/-- One character on: the tokens it finishes and the mode after it. A zero that is followed by a
digit, or a number that stops short, is no number. -/
def step (mode : Mode) (c : Char) : List Token × Mode :=
  match mode with
  | blank => start c
  | literal token due =>
    match due with
    | [] => ([.fault .malformed], stopped)
    | [last] => if c = last then ([token], blank) else ([.fault .malformed], stopped)
    | next :: rest => if c = next then ([], literal token rest) else ([.fault .malformed], stopped)
  | number draft =>
    match draft.next? c with
    | some longer => ([], number longer)
    | none =>
      if draft.isComplete ∧ ¬ (draft.phase = .zero ∧ c.isDigit) then
        let (tokens, next) := start c
        (.number draft.numeral :: tokens, next)
      else ([.fault .malformed], stopped)
  | string pieces =>
    if c = '"' then ([.string ⟨pieces.reverse, .closed⟩], blank)
    else if c = '\\' then ([], escape pieces)
    else if c.toNat < 0x20 then breakOff pieces
    else ([], string (.char c :: pieces))
  | escape pieces =>
    if c = 'u' then ([], unit pieces 0 (some 0))
    else match escapeOf? c with
      | some meant => ([], string (.char meant :: pieces))
      | none => breakOff pieces
  | unit pieces bytes value? =>
    let bytes := bytes + c.utf8Size
    let value? := do return 16 * (← value?) + (← hexValue? c)
    if bytes < 4 then ([], unit pieces bytes value?)
    else match value? with
      | some value => ([], string (.unit value :: pieces))
      | none => breakOff pieces
  | stopped => ([], stopped)

/-- The tokens that the end of the text finishes, and the fault that it is. -/
def finish : Mode → List Token
  | blank => [.fault .endOfText]
  | literal _ _ => [.fault .cutLiteral]
  | number draft =>
    if draft.isComplete then [.number draft.numeral, .fault .endOfText] else [.fault .cutNumber]
  | string pieces | escape pieces | unit pieces _ _ =>
    [.string ⟨pieces.reverse, .short .truncated⟩, .fault .endOfText]
  | stopped => []

def scan : Mode → List Char → List Token
  | mode, [] => mode.finish
  | mode, c :: rest => (mode.step c).1 ++ scan (mode.step c).2 rest

end Mode

/-- All tokens of a text, with a fault at the end. -/
def tokens (text : List Char) : List Token := Mode.scan .blank text

end MaskLayout.Json
