import Munch.Json.Token

/-!
# Splitting JSON text into tokens

The lexer is a machine that reads one character at a time, where `none` stands for a byte that is
part of no character. Such a byte is tolerated inside a string, which then denotes nothing, and
nowhere else.

* `StringPart` collects the text of a string, joining surrogate pairs.
* `LexState.step` is one step of the machine; it reports the tokens completed by the step.
* `LexState.finish` reports the token that only the end of the text completes.
-/

namespace Munch.Json

/-! ## The text of a string -/

/-- The part of a string read so far. -/
structure StringPart where
  /-- The characters, newest first; `none` once the string denotes nothing. -/
  chars : Option (List Char) := some []
  /-- The first half of a surrogate pair that waits for its second half. -/
  half : Option Nat := none
deriving DecidableEq, Repr

namespace StringPart

/-- Appends a character. -/
def push (p : StringPart) (c : Option Char) : StringPart :=
  match p.chars, p.half, c with
  | some chars, none, some c => { chars := some (c :: chars) }
  | _, _, _ => { chars := none }

/-- Appends a 16-bit code unit given by an escape. -/
def pushUnit (p : StringPart) (unit : Nat) : StringPart :=
  let isHigh := decide (0xd800 ≤ unit ∧ unit < 0xdc00)
  let isLow := decide (0xdc00 ≤ unit ∧ unit < 0xe000)
  match p.chars, p.half with
  | some chars, none =>
    if isHigh then { chars := some chars, half := some unit }
    else if isLow then { chars := none }
    else { chars := some (Char.ofNat unit :: chars) }
  | some chars, some high =>
    if isLow then
      { chars := some (Char.ofNat (0x10000 + (high - 0xd800) * 0x400 + (unit - 0xdc00)) :: chars) }
    else { chars := none }
  | none, _ => { chars := none }

/-- The text of the finished string. -/
def finish (p : StringPart) : Option String :=
  match p.chars, p.half with
  | some chars, none => some (String.ofList chars.reverse)
  | _, _ => none

end StringPart

/-! ## The machine -/

/-- How far a number has been read. -/
inductive NumberPhase where
  /-- A sign, a digit must follow. -/
  | sign
  /-- A leading zero, no digit may follow. -/
  | zero
  | integer
  /-- A decimal point, a digit must follow. -/
  | point
  | fraction
  /-- An exponent mark, a sign or a digit must follow. -/
  | mark
  /-- The sign of an exponent, a digit must follow. -/
  | markSign
  | exponent
deriving DecidableEq, Repr

/-- Where the lexer stands. -/
inductive LexState where
  /-- Between two tokens. -/
  | between
  /-- Inside a literal name, of which `rest` is still missing. -/
  | word (rest : List Char) (token : Token)
  /-- Inside a number; `value` is what its digits denote so far. -/
  | number (phase : NumberPhase) (value : Option Nat)
  /-- Inside a string. -/
  | string (part : StringPart)
  /-- Behind a backslash. -/
  | escape (part : StringPart)
  /-- Inside a code unit, of which `missing + 1` digits are to come. -/
  | unit (missing value : Nat) (part : StringPart)
deriving DecidableEq, Repr

/-- The value of a decimal digit. -/
def digit? (c : Char) : Option Nat :=
  if '0' ≤ c ∧ c ≤ '9' then some (c.toNat - '0'.toNat) else none

/-- The value of a hexadecimal digit of either case. -/
def hexDigit? (c : Char) : Option Nat :=
  if '0' ≤ c ∧ c ≤ '9' then some (c.toNat - '0'.toNat)
  else if 'a' ≤ c ∧ c ≤ 'f' then some (c.toNat - 'a'.toNat + 10)
  else if 'A' ≤ c ∧ c ≤ 'F' then some (c.toNat - 'A'.toNat + 10)
  else none

/-- The characters that may stand between tokens. -/
def isBlank (c : Char) : Bool := c = ' ' || c = '\t' || c = '\n' || c = '\r'

/-- What a backslash and one letter stand for; `u` is not among them. -/
def unescape? (c : Char) : Option Char :=
  if c = '\x22' ∨ c = '\\' ∨ c = '/' then some c
  else if c = 'b' then some '\x08'
  else if c = 'f' then some '\x0c'
  else if c = 'n' then some '\n'
  else if c = 'r' then some '\r'
  else if c = 't' then some '\t'
  else none

namespace LexState

/-- The first character of a token, or a blank. -/
def start (c : Char) : Option (LexState × List Token) :=
  if isBlank c then some (.between, [])
  else if c = '\x7b' then some (.between, [.openBrace])
  else if c = '\x7d' then some (.between, [.closeBrace])
  else if c = '[' then some (.between, [.openBracket])
  else if c = ']' then some (.between, [.closeBracket])
  else if c = ',' then some (.between, [.comma])
  else if c = ':' then some (.between, [.colon])
  else if c = '\x22' then some (.string {}, [])
  else if c = 'n' then some (.word ['u', 'l', 'l'] .null, [])
  else if c = 't' then some (.word ['r', 'u', 'e'] (.bool true), [])
  else if c = 'f' then some (.word ['a', 'l', 's', 'e'] (.bool false), [])
  else if c = '-' then some (.number .sign none, [])
  else if c = '0' then some (.number .zero (some 0), [])
  else (digit? c).map fun d => (.number .integer (some d), [])

/-- One more character of a number; `none` if the number does not go on with it. -/
def numberStep? (phase : NumberPhase) (value : Option Nat) (c : Char) : Option LexState :=
  let isMark := c = 'e' ∨ c = 'E'
  match phase with
  | .sign =>
    if c = '0' then some (.number .zero none) else (digit? c).map fun _ => .number .integer none
  | .zero =>
    if c = '.' then some (.number .point none)
    else if isMark then some (.number .mark none)
    else none
  | .integer =>
    if c = '.' then some (.number .point none)
    else if isMark then some (.number .mark none)
    else (digit? c).map fun d => .number .integer (value.map (· * 10 + d))
  | .point => (digit? c).map fun _ => .number .fraction none
  | .fraction =>
    if isMark then some (.number .mark none) else (digit? c).map fun _ => .number .fraction none
  | .mark =>
    if c = '+' ∨ c = '-' then some (.number .markSign none)
    else (digit? c).map fun _ => .number .exponent none
  | .markSign => (digit? c).map fun _ => .number .exponent none
  | .exponent => (digit? c).map fun _ => .number .exponent none

/-- Whether a number may end here. -/
def mayEnd : NumberPhase → Bool
  | .zero | .integer | .fraction | .exponent => true
  | .sign | .point | .mark | .markSign => false

/-- One character of a text, with the tokens it completes. -/
def step : LexState → Option Char → Option (LexState × List Token)
  | .between, some c => start c
  | .word (expected :: rest) token, some c =>
    if c = expected then
      if rest.isEmpty then some (.between, [token]) else some (.word rest token, [])
    else none
  | .number phase value, some c =>
    match numberStep? phase value c with
    | some state => some (state, [])
    | none =>
      -- the number is over, and the character starts the next token
      if mayEnd phase then (start c).map fun (state, tokens) => (state, .number value :: tokens)
      else none
  | .string part, some c =>
    if c = '\x22' then some (.between, [.string part.finish])
    else if c = '\\' then some (.escape part, [])
    else if c.toNat < 0x20 then none
    else some (.string (part.push (some c)), [])
  | .string part, none => some (.string (part.push none), [])
  | .escape part, some c =>
    if c = 'u' then some (.unit 3 0 part, [])
    else (unescape? c).map fun c => (.string (part.push (some c)), [])
  | .unit missing value part, some c => (hexDigit? c).map fun d =>
    match missing with
    | 0 => (.string (part.pushUnit (value * 16 + d)), [])
    | missing + 1 => (.unit missing (value * 16 + d) part, [])
  | _, _ => none

/-- The token that the end of the text completes. -/
def finish : LexState → Option (List Token)
  | .between => some []
  | .number phase value => if mayEnd phase then some [.number value] else none
  | _ => none

end LexState

end Munch.Json
