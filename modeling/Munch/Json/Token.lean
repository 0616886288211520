import Munch.Text.Escape

/-!
# JSON tokens

The tokens of a JSON text and their compact written form.

A string token holds the text it denotes, a numeral the natural number it denotes. Some lexemes
are well shaped and denote neither: a string with half a surrogate pair or with bytes that are no
character, a number with a sign, a fraction or an exponent. They are tokens all the same, with
`none` for their meaning, because a reader may skip them without looking inside.

* `Token.text` writes a token; a token without meaning is written as the shortest lexeme of its
  kind that has none.
-/

namespace Munch.Json

/-- A lexical unit of JSON. -/
inductive Token where
  | openBrace
  | closeBrace
  | openBracket
  | closeBracket
  | comma
  | colon
  | null
  | bool (value : Bool)
  | number (value : Option Nat)
  | string (value : Option String)
deriving DecidableEq, Repr

/-- The escape of a character inside a string: quotes, backslashes and control characters only. -/
def escapeChar (c : Char) : List Char :=
  if c = '\x22' then ['\\', '\x22']
  else if c = '\\' then ['\\', '\\']
  else if c = '\x08' then ['\\', 'b']
  else if c = '\x0c' then ['\\', 'f']
  else if c = '\n' then ['\\', 'n']
  else if c = '\r' then ['\\', 'r']
  else if c = '\t' then ['\\', 't']
  else if c.toNat < 0x20 then
    ['\\', 'u', '0', '0', Nat.digitChar (c.toNat / 16), Nat.digitChar (c.toNat % 16)]
  else [c]

/-- A string between quotes. -/
def stringText (s : String) : List Char :=
  ['\x22'] ++ s.toList.flatMap escapeChar ++ ['\x22']

/-- The written form of a token. -/
def Token.text : Token → List Char
  | .openBrace => ['\x7b']
  | .closeBrace => ['\x7d']
  | .openBracket => ['[']
  | .closeBracket => [']']
  | .comma => [',']
  | .colon => [':']
  | .null => ['n', 'u', 'l', 'l']
  | .bool true => ['t', 'r', 'u', 'e']
  | .bool false => ['f', 'a', 'l', 's', 'e']
  | .number (some n) => Text.decimal n
  | .number none => ['-', '0']
  | .string (some s) => stringText s
  | .string none => ['\x22', '\\', 'u', 'd', '8', '0', '0', '\x22']

end Munch.Json
