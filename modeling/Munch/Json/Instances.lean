import Munch.Json.Format
import Munch.Match

/-!
# JSON forms of identifiers, spans and matches

No contract is checked on reading: a span may be reversed and a position may hold a zero.
-/

namespace Munch.Json

/-- An identifier is a bare number. -/
instance {kind : IdentKind} : Format (Ident kind) where
  encode id := Format.encode id.raw
  decode? value := (Format.decode? value).map Ident.mk

instance : Format Span where
  encode s := .object [field "start" s.start, field "end" s.stop]
  decode? value := do
    match ← value.fields? ["start", "end"] with
    | [start, stop] => return ⟨← required start, ← required stop⟩
    | _ => none

instance : Format Position where
  encode p := .object [field "line" p.line, field "column" p.column]
  decode? value := do
    match ← value.fields? ["line", "column"] with
    | [line, column] => return ⟨← required line, ← required column⟩
    | _ => none

instance : Format Match where
  encode m := .object [field "symbol" m.symbol, field "span" m.span]
  decode? value := do
    match ← value.fields? ["symbol", "span"] with
    | [symbol, span] => return ⟨← required symbol, ← required span⟩
    | _ => none

instance : Format LocatedMatch where
  encode m := .object
    [field "symbol" m.symbol, field "span" m.span,
      field "start_location" m.startsAt, field "end_location" m.endsAt]
  decode? value := do
    match ← value.fields? ["symbol", "span", "start_location", "end_location"] with
    | [symbol, span, startsAt, endsAt] =>
      return ⟨← required symbol, ← required span, ← required startsAt, ← required endsAt⟩
    | _ => none

end Munch.Json
