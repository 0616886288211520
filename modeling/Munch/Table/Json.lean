import Munch.Json.Feed
import Munch.Json.Instances
import Munch.Table.Validate

/-!
# Tables in JSON form

A table is written as its draft: rows, symbols and modes. Absent end-of-input transitions and
actions are left out, everything else is always written. A table is read as a draft and then
validated, so that reading yields a normalised table or a reason why there is none.

* `Table.toJson` writes a table.
* `Table.load` reads a document and then validates the draft in it; text that is no draft is a
  JSON error, whatever the reason.
* `Table.decode` takes validation for a part of reading: a table is validated as soon as its value
  is complete, before anything is known about the text behind it, and a defect is a JSON error
  like any other.
-/

namespace Munch

open Json

namespace Json

instance : Format CharRange where
  encode r := .object [field "start" r.first, field "end" r.last]
  decode? value := do
    match ← value.fields? ["start", "end"] with
    | [first, last] => return ⟨← required first, ← required last⟩
    | _ => none

/-- An edge is an array of its range and its target. -/
instance : Format Edge where
  encode e := .array [Format.encode e.range, Format.encode e.target]
  decode?
    | .array [range, target] => do return ⟨← Format.decode? range, ← Format.decode? target⟩
    | _ => none

instance : Format Row where
  encode r := .object
    ([field "transitions" r.edges] ++ fieldIfPresent "eof_transition" r.atEnd ++
      [field "accepting" r.accepting])
  decode? value := do
    match ← value.fields? ["transitions", "eof_transition", "accepting"] with
    | [edges, atEnd, accepting] =>
      return ⟨← optional #[] edges, ← optional none atEnd, ← optional [] accepting⟩
    | _ => none

instance : Format Symbol where
  encode s := .object
    ([field "name" s.name] ++ fieldIfPresent "action" s.action ++
      [field "rejectable" s.rejectable])
  decode? value := do
    match ← value.fields? ["name", "action", "rejectable"] with
    | [name, action, rejectable] =>
      return ⟨← required name, ← optional none action, ← optional false rejectable⟩
    | _ => none

instance : Format Mode where
  encode m := .object [field "name" m.name, field "start_state" m.start]
  decode? value := do
    match ← value.fields? ["name", "start_state"] with
    | [name, start] => return ⟨← required name, ← required start⟩
    | _ => none

instance : Format Draft where
  encode d := .object
    [field "states" d.rows, field "symbols" d.symbols, field "modes" d.modes]
  decode? value := do
    match ← value.fields? ["states", "symbols", "modes"] with
    | [rows, symbols, modes] =>
      return ⟨← required rows, ← optional #[] symbols, ← optional #[] modes⟩
    | _ => none

end Json

namespace Table

/-- The JSON text of a table. -/
def toJson (t : Table) : String := Json.write t.toDraft

/-- Reads a table and validates it. -/
def load (feed : Feed) : Logged (Except Error Table) := do
  match feed.chars?.bind (Json.read? Draft) with
  | none => return .error .json
  | some draft => return (← draft.build).mapError .table

/-- Reads a table from the front of a text; behind it there may be blanks only. -/
def decode (text : List (Option Char)) : Logged (Except Error Table) := do
  match Value.leading? text with
  | none => return .error .json
  | some (value, rest) =>
    match (Format.decode? value : Option Draft) with
    | none => return .error .json
    | some draft =>
      match ← draft.build with
      | .error _ => return .error .json
      | .ok t => return if rest.all (·.any isBlank) then .ok t else .error .json

end Table

end Munch
