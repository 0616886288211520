import Munch.Proofs.Json.Formats
import Munch.Proofs.Table.Normal
import Munch.Table.Json

/-!
# Tables survive being written

The JSON text of a validated table is read back as the table.

Reading ends with a validation, and validation sorts, removes repetitions and fills in a missing
mode. A validated table has gone through that before: it is in normal form, so nothing changes
(`Table.Validated.validate_toDraft`). What remains is that its data survive the text, which the
formats of its parts give one by one.

* `optional_map_encode` — an identifier that is left out when it is absent.
* `Table.Validated.load_toJson` — the round trip of a table.
-/

namespace Munch

open Json

namespace Json

/-! ## The parts of a table -/

/-- An identifier is never written as `null`, so its absence can be left out. -/
@[simp]
theorem optional_map_encode {kind : IdentKind} (id : Option (Ident kind)) :
    optional none (id.map Format.encode) = some id := by
  cases id with
  | none => rfl
  | some id =>
    show (Format.decode? (Format.encode id)).map some = some (some id)
    rw [LawfulFormat.decode?_encode, Option.map_some]

instance : LawfulFormat CharRange where
  decode?_encode r := by
    have hfields : Value.fields? ["start", "end"] (Format.encode r) =
        some [some (Format.encode r.first), some (Format.encode r.last)] := rfl
    simp only [Format.decode?, hfields]
    simp

instance : LawfulFormat Edge where
  decode?_encode e := by
    show (do return ⟨← Format.decode? (Format.encode e.range),
      ← Format.decode? (Format.encode e.target)⟩) = some e
    simp

instance : LawfulFormat Row where
  decode?_encode r := by
    have hfields : Value.fields? ["transitions", "eof_transition", "accepting"]
        (Format.encode r) = some [some (Format.encode r.edges), r.atEnd.map Format.encode,
          some (Format.encode r.accepting)] := by
      obtain ⟨edges, _ | atEnd, accepting⟩ := r <;> rfl
    simp only [Format.decode?, hfields]
    simp

instance : LawfulFormat Symbol where
  decode?_encode s := by
    have hfields : Value.fields? ["name", "action", "rejectable"] (Format.encode s) =
        some [some (Format.encode s.name), s.action.map Format.encode,
          some (Format.encode s.rejectable)] := by
      obtain ⟨name, _ | action, rejectable⟩ := s <;> rfl
    simp only [Format.decode?, hfields]
    simp

instance : LawfulFormat Mode where
  decode?_encode m := by
    have hfields : Value.fields? ["name", "start_state"] (Format.encode m) =
        some [some (Format.encode m.name), some (Format.encode m.start)] := rfl
    simp only [Format.decode?, hfields]
    simp

instance : LawfulFormat Draft where
  decode?_encode d := by
    have hfields : Value.fields? ["states", "symbols", "modes"] (Format.encode d) =
        some [some (Format.encode d.rows), some (Format.encode d.symbols),
          some (Format.encode d.modes)] := rfl
    simp only [Format.decode?, hfields]
    simp

end Json

/-! ## Whole tables -/

/-- **The JSON text of a validated table is read back as the very same table**: with its rows,
symbols and modes and with its index of the names, so that every look-up and the text written for
it are the same, too. -/
theorem Table.Validated.load_toJson {t : Table} (valid : t.Validated) :
    (Table.load { bytes := t.toJson.toUTF8 }).result = .ok (.ok t) := by
  have hread : (Feed.chars? { bytes := t.toJson.toUTF8 }).bind (Json.read? Draft) =
      some t.toDraft := by
    rw [Feed.chars?_toUTF8, Option.bind_some, Table.toJson, read?_write]
  have hbuild : t.toDraft.build.result = .ok (.ok t) := by
    rw [Draft.build, valid.validate_toDraft]
    rfl
  simp only [Table.load, hread]
  rw [Logged.bind_ok hbuild]
  rfl

/-- Ranges from the first character to the last, names that have to be escaped, the largest
identifier. -/
def oddTable : Table where
  rows := #[
    { edges := #[⟨⟨'\x00', '\x22'⟩, ⟨1⟩⟩, ⟨⟨'\\', Char.ofNat 0x10ffff⟩, ⟨0⟩⟩], atEnd := some ⟨1⟩ },
    { accepting := [⟨0⟩, ⟨1⟩] }]
  symbols := #[
    { name := "\x22\\\n\x01", action := some ⟨4294967295⟩, rejectable := true },
    { name := "" }]
  modes := #[⟨"é\x7f", ⟨1⟩⟩]
  names :=
    ((∅ : Std.HashMap String SymbolId).insert "\x22\\\n\x01" (.ofIndex 0)).insert "" (.ofIndex 1)

theorem oddTable_validated : oddTable.Validated := by
  have hnormal : oddTable.toDraft.normalize = oddTable.toDraft := by
    simp (disch := decide) [Draft.normalize, Row.normalize_of_pairwise, Table.toDraft, oddTable]
  have hnames : indexNames 0 (oddTable.symbols.toList.map (·.name)) ∅ = .ok oddTable.names := by
    simp [indexNames, oddTable]
  exact Table.validated_of_normal hnormal (by decide) hnames

theorem load_oddTable : oddTable.Validated ∧
    (Table.load { bytes := oddTable.toJson.toUTF8 }).result = .ok (.ok oddTable) :=
  ⟨oddTable_validated, oddTable_validated.load_toJson⟩

end Munch
