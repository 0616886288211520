import Munch.Json.Lexer

/-!
# JSON values

A JSON value is a tree. Members of an object keep their order and may repeat. The leaves keep the
tokens' distinction between lexemes that denote something and lexemes that do not.

* `Value.tokens` flattens a value, `Value.text` writes it compactly.
* `ParseState.step` rebuilds a value token by token, with the enclosing arrays and objects on an
  explicit stack.
* `Reader` joins it to the lexer and takes one character at a time. `Value.parse?` reads a text
  that holds one value and nothing else, `Value.leading?` the value at the front of a text.
-/

namespace Munch.Json

/-- A JSON value. -/
inductive Value where
  | null
  | bool (value : Bool)
  | number (value : Option Nat)
  | string (value : Option String)
  | array (items : List Value)
  | object (members : List (Option String × Value))
deriving Repr

/-! ## Writing -/

mutual

/-- The tokens of a value. -/
def Value.tokens : Value → List Token
  | .null => [.null]
  | .bool value => [.bool value]
  | .number value => [.number value]
  | .string value => [.string value]
  | .array items => .openBracket :: (itemTokens items).drop 1 ++ [.closeBracket]
  | .object members => .openBrace :: (memberTokens members).drop 1 ++ [.closeBrace]

/-- The tokens of array items, a comma in front of each. -/
def itemTokens : List Value → List Token
  | [] => []
  | item :: rest => .comma :: item.tokens ++ itemTokens rest

/-- The tokens of object members, a comma in front of each. -/
def memberTokens : List (Option String × Value) → List Token
  | [] => []
  | (key, value) :: rest =>
    .comma :: .string key :: .colon :: value.tokens ++ memberTokens rest

end

/-- The compact text of a value. -/
def Value.text (v : Value) : List Char := v.tokens.flatMap Token.text

/-! ## Reading -/

/-- An array or object that has been opened and waits for its next value. -/
inductive Frame where
  /-- The items so far, newest first. -/
  | array (items : List Value)
  /-- The members so far, newest first, and the key of the value to come. -/
  | object (members : List (Option String × Value)) (key : Option String)
deriving Repr

/-- What the parser expects next. -/
inductive Expected where
  /-- A value. -/
  | value
  /-- A value or the end of an array that was just opened. -/
  | firstItem
  /-- A key or the end of an object that was just opened. -/
  | firstKey
  /-- A key behind these members. -/
  | key (members : List (Option String × Value))
  /-- The colon behind a key. -/
  | colon (members : List (Option String × Value)) (key : Option String)
  /-- Whatever follows a complete value. -/
  | afterValue (value : Value)
deriving Repr

/-- The open arrays and objects, innermost first, and what is expected next. -/
structure ParseState where
  stack : List Frame := []
  expected : Expected := .value
deriving Repr

/-- The first token of a value. -/
def ParseState.startValue? (stack : List Frame) : Token → Option ParseState
  | .null => some ⟨stack, .afterValue .null⟩
  | .bool value => some ⟨stack, .afterValue (.bool value)⟩
  | .number value => some ⟨stack, .afterValue (.number value)⟩
  | .string value => some ⟨stack, .afterValue (.string value)⟩
  | .openBracket => some ⟨stack, .firstItem⟩
  | .openBrace => some ⟨stack, .firstKey⟩
  | _ => none

/-- One token of a text. -/
def ParseState.step (s : ParseState) (token : Token) : Option ParseState :=
  match s.expected, s.stack, token with
  | .value, stack, token => startValue? stack token
  | .firstItem, stack, .closeBracket => some ⟨stack, .afterValue (.array [])⟩
  | .firstItem, stack, token => startValue? (.array [] :: stack) token
  | .firstKey, stack, .closeBrace => some ⟨stack, .afterValue (.object [])⟩
  | .firstKey, stack, .string key => some ⟨stack, .colon [] key⟩
  | .key members, stack, .string key => some ⟨stack, .colon members key⟩
  | .colon members key, stack, .colon => some ⟨.object members key :: stack, .value⟩
  | .afterValue value, .array items :: stack, .comma =>
    some ⟨.array (value :: items) :: stack, .value⟩
  | .afterValue value, .array items :: stack, .closeBracket =>
    some ⟨stack, .afterValue (.array (value :: items).reverse)⟩
  | .afterValue value, .object members key :: stack, .comma =>
    some ⟨stack, .key ((key, value) :: members)⟩
  | .afterValue value, .object members key :: stack, .closeBrace =>
    some ⟨stack, .afterValue (.object ((key, value) :: members).reverse)⟩
  | _, _, _ => none

/-- The value that a text is complete with. -/
def ParseState.finish : ParseState → Option Value
  | ⟨[], .afterValue value⟩ => some value
  | _ => none

/-- A lexer and the parser that takes its tokens. -/
structure Reader where
  lexer : LexState := .between
  parser : ParseState := {}
deriving Repr

namespace Reader

/-- One character of a text, where `none` stands for a byte that is part of no character. -/
def step (r : Reader) (c : Option Char) : Option Reader := do
  let (lexer, tokens) ← r.lexer.step c
  let parser ← tokens.foldlM ParseState.step r.parser
  return { lexer, parser }

/-- The value that is complete without any further character. -/
def complete? (r : Reader) : Option Value :=
  match r.lexer with
  | .between => r.parser.finish
  | _ => none

/-- The value that the end of the text completes. -/
def finish (r : Reader) : Option Value := do
  let last ← r.lexer.finish
  let parser ← last.foldlM ParseState.step r.parser
  parser.finish

/-- Reads on until a value is complete; the rest of the text is left over. -/
def leading? (r : Reader) : List (Option Char) → Option (Value × List (Option Char))
  | [] => r.finish.map (·, [])
  | c :: rest => do
    let r ← r.step c
    match r.complete? with
    | some value => some (value, rest)
    | none => r.leading? rest

end Reader

/-- The value of a text that holds nothing else. -/
def Value.parse? (text : List (Option Char)) : Option Value := do
  let reader ← text.foldlM Reader.step {}
  reader.finish

/-- The value at the front of a text and what follows it. A number has to be followed by a blank
or by the end of the text. -/
def Value.leading? (text : List (Option Char)) : Option (Value × List (Option Char)) :=
  Reader.leading? {} text

end Munch.Json
