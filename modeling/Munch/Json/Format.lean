import Munch.Json.Value

/-!
# Data in JSON form

`Format α` says how a value of type `α` is written as JSON and read back.

A record is written as an object with its fields in order. It is read from an object with the
fields in any order, where unknown keys are skipped and a repeated field is refused, or from an
array with the fields in order. `Value.fields?` gives the values found for a list of field names;
`required` and `optional` then read one field.
-/

namespace Munch.Json

/-- The JSON form of a type. -/
class Format (α : Type) where
  encode : α → Value
  decode? : Value → Option α

/-- The compact JSON text of a value. -/
def write {α : Type} [Format α] (a : α) : String := String.ofList (Format.encode a).text

/-- Reads a text that holds one value of the type. -/
def read? (α : Type) [Format α] (text : List (Option Char)) : Option α := do
  let value ← Value.parse? text
  Format.decode? value

/-! ## Records -/

/-- The value of the only member with the given key, `some none` if there is no such member. -/
def member? (members : List (String × Value)) (name : String) : Option (Option Value) :=
  match members.filter (·.1 = name) with
  | [] => some none
  | [(_, value)] => some (some value)
  | _ => none

/-- The values of the named fields; a field that is not given has none. -/
def Value.fields? (names : List String) : Value → Option (List (Option Value))
  | .object members => do
    let members ← members.mapM fun (key, value) => key.map (·, value)
    names.mapM (member? members)
  | .array items =>
    if items.length ≤ names.length then
      some (items.map some ++ List.replicate (names.length - items.length) none)
    else none
  | _ => none

/-- Reads a field that has to be given. -/
def required {α : Type} [Format α] (field : Option Value) : Option α :=
  field.bind Format.decode?

/-- Reads a field that stands for `default` when it is not given. -/
def optional {α : Type} [Format α] (default : α) : Option Value → Option α
  | none => some default
  | some value => Format.decode? value

/-- The member for a field. -/
def field {α : Type} [Format α] (name : String) (a : α) : Option String × Value :=
  (some name, Format.encode a)

/-- The member for a field that is left out when it is absent. -/
def fieldIfPresent {α : Type} [Format α] (name : String) (a : Option α) :
    List (Option String × Value) :=
  a.toList.map (field name)

/-! ## Plain data -/

/-- Natural numbers of 64 bits. -/
instance : Format Nat where
  encode n := .number (some n)
  decode?
    | .number (some n) => if n < UInt64.size then some n else none
    | _ => none

/-- Words of 32 bits. -/
instance : Format UInt32 where
  encode n := .number (some n.toNat)
  decode?
    | .number (some n) => if n < UInt32.size then some (UInt32.ofNat n) else none
    | _ => none

instance : Format Bool where
  encode b := .bool b
  decode?
    | .bool b => some b
    | _ => none

instance : Format String where
  encode s := .string (some s)
  decode?
    | .string s => s
    | _ => none

/-- A character is a string of length one. -/
instance : Format Char where
  encode c := .string (some (String.singleton c))
  decode?
    | .string (some s) =>
      match s.toList with
      | [c] => some c
      | _ => none
    | _ => none

/-- An absent value is `null`. -/
instance {α : Type} [Format α] : Format (Option α) where
  encode
    | none => .null
    | some a => Format.encode a
  decode?
    | .null => some none
    | value => (Format.decode? value).map some

instance {α : Type} [Format α] : Format (List α) where
  encode items := .array (items.map Format.encode)
  decode?
    | .array items => items.mapM Format.decode?
    | _ => none

instance {α : Type} [Format α] : Format (Array α) where
  encode items := Format.encode items.toList
  decode? value := (Format.decode? value : Option (List α)).map List.toArray

end Munch.Json
