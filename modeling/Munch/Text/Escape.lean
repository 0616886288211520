import Munch.Text.Printable

/-!
# Escaped text

Two ways to show a character without ambiguity:

* `quoted` puts it between apostrophes and escapes what cannot be printed; error messages use it.
* `escaped` leaves only printable ASCII as it is and escapes everything else; graph labels use
  it, so that a label never ends early and is read back in one way.
-/

namespace Munch.Text

/-- The digits of `n` in base ten. -/
def decimal (n : Nat) : List Char := Nat.toDigits 10 n

/-- The code point of a character in braces, in lower-case base sixteen. -/
def codePointEscape (c : Char) : List Char :=
  ['\\', 'u', '\x7b'] ++ Nat.toDigits 16 c.toNat ++ ['\x7d']

/-- The escapes that consist of a backslash and one letter. -/
def letterEscape? (c : Char) : Option Char :=
  if c = '\t' then some 't'
  else if c = '\r' then some 'r'
  else if c = '\n' then some 'n'
  else if c = '\x27' then some '\x27'
  else if c = '\\' then some '\\'
  else none

/-- A character between apostrophes. The double quote stands for itself, zero is `\\0`. -/
def quoted (c : Char) : String :=
  let body :=
    match letterEscape? c with
    | some letter => ['\\', letter]
    | none =>
      if c = '\x00' then ['\\', '0']
      else if isPrintable c then [c]
      else codePointEscape c
  String.ofList (['\x27'] ++ body ++ ['\x27'])

/-- A character as printable ASCII. -/
def escapedChar (c : Char) : List Char :=
  match letterEscape? c with
  | some letter => ['\\', letter]
  | none =>
    if c = '\x22' then ['\\', '\x22']
    else if ' ' ≤ c ∧ c ≤ '~' then [c]
    else codePointEscape c

/-- A text as printable ASCII, character by character. -/
def escaped (text : List Char) : List Char := text.flatMap escapedChar

@[simp]
theorem escaped_nil : escaped [] = [] := rfl

@[simp]
theorem escaped_append (a b : List Char) : escaped (a ++ b) = escaped a ++ escaped b := by
  simp [escaped]

end Munch.Text
