import Munch.Match

/-!
# Character sources

A source is a seekable stream of characters. A scan reads ahead of the match it finally takes and
goes back afterwards, so a source has to return to any cursor it has reported. What a cursor
counts is the source's business; matches and positions are expressed in it.

`remaining` is a bound on the characters still to be read. It makes every scan terminate.
-/

namespace Munch

/-- A seekable stream of characters. -/
class Source (σ : Type) where
  /-- The next character and the source behind it; nothing at the end of the input. -/
  read : σ → Option (Char × σ)
  /-- Where the next character is read. -/
  cursor : σ → Nat
  /-- Moves to a cursor. -/
  seek : σ → Nat → σ
  /-- The line and column of a cursor. -/
  position : σ → Nat → Except Fault Position
  /-- The text between two cursors, if the source can tell. -/
  excerpt? : σ → Span → Option String
  /-- A bound on the number of characters still to be read. -/
  remaining : σ → Nat
  /-- Reading a character uses up the bound. -/
  remaining_lt : ∀ {s : σ} {c : Char} {s' : σ}, read s = some (c, s') → remaining s' < remaining s

end Munch
