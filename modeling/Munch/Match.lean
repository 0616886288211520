import Munch.Ident
import Munch.Position
import Munch.Span

/-!
# Matches

A match says which symbol covers which span. A located match adds the positions of both ends.
-/

namespace Munch

/-- A symbol and the span it covers. -/
structure Match where
  symbol : SymbolId
  span : Span
deriving DecidableEq, Repr

namespace Match

/-- Where the match starts. -/
def start (m : Match) : Nat := m.span.start

/-- Where the match stops. -/
def stop (m : Match) : Nat := m.span.stop

/-- The length of the match in position units. -/
def length (m : Match) : Nat := m.span.length

/-- Whether the match covers nothing. -/
def isEmpty (m : Match) : Bool := m.span.isEmpty

/-- The form in which log lines show a match. -/
def describe (m : Match) : String :=
  let span := s!"Span \x7b start: {m.start}, end: {m.stop} \x7d"
  s!"Match \x7b symbol: SymbolID({m.symbol}), span: {span} \x7d"

end Match

/-- A match together with the positions of its ends. -/
structure LocatedMatch where
  symbol : SymbolId
  span : Span
  startsAt : Position
  endsAt : Position
deriving DecidableEq, Repr

/-- The match without its positions. -/
def LocatedMatch.toMatch (m : LocatedMatch) : Match := ⟨m.symbol, m.span⟩

end Munch
