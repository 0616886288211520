import Munch.Json.Feed
import Munch.Json.Instances
import Munch.Proofs.Json.Reading

/-!
# Formats that lose nothing

A format is lawful if every value is read back from what was written for it.

* `decodeUtf8_toUTF8` — the bytes of a text are decoded as its characters.
* `LawfulFormat` — the JSON form of a value is decoded as the value. `read?_write` — so is its text.
-/

namespace Munch.Json

/-! ## Bytes -/

theorem charsFrom_append (before : ByteArray) (text : List Char) :
    charsFrom (before ++ text.utf8Encode) before.size = text.map some := by
  induction text generalizing before with
  | nil =>
    rw [charsFrom]
    simp
  | cons c rest ih =>
    have hdecode : (before ++ (c :: rest).utf8Encode).utf8DecodeChar? before.size = some c := by
      rw [ByteArray.utf8DecodeChar?_eq_utf8DecodeChar?_extract,
        ByteArray.extract_append_eq_right (by simp) (by simp), List.utf8DecodeChar?_utf8Encode_cons]
    have hsize : [c].utf8Encode.size = c.utf8Size := by simp [List.utf8Encode_singleton]
    have hlt : before.size < (before ++ (c :: rest).utf8Encode).size := by
      have hpos := c.utf8Size_pos
      rw [ByteArray.size_append, List.utf8Encode_cons, ByteArray.size_append]
      omega
    have hrest := ih (before ++ [c].utf8Encode)
    rw [ByteArray.append_assoc, ← List.utf8Encode_cons, ByteArray.size_append, hsize] at hrest
    rw [charsFrom, if_pos hlt, hdecode]
    simp only [hrest, List.map_cons]

theorem decodeUtf8_toUTF8 (s : String) : decodeUtf8 s.toUTF8 = s.toList.map some := by
  have h := charsFrom_append .empty s.toList
  simpa [decodeUtf8] using h

theorem Feed.chars?_toUTF8 (s : String) :
    Feed.chars? { bytes := s.toUTF8 } = some (s.toList.map some) := by
  simp [Feed.chars?, decodeUtf8_toUTF8, -String.toUTF8_eq_toByteArray]

/-! ## Values -/

/-- What is written is read back. -/
class LawfulFormat (α : Type) [Format α] : Prop where
  decode?_encode (a : α) : Format.decode? (Format.encode a) = some a

attribute [simp] LawfulFormat.decode?_encode

variable {α : Type} [Format α] [LawfulFormat α]

theorem read?_write (a : α) : read? α ((write a).toList.map some) = some a := by
  simp [read?, write, Value.parse?_text]

@[simp]
theorem required_encode (a : α) : required (some (Format.encode a)) = some a :=
  LawfulFormat.decode?_encode a

@[simp]
theorem optional_encode (default a : α) : optional default (some (Format.encode a)) = some a :=
  LawfulFormat.decode?_encode a

instance : LawfulFormat UInt32 where
  decode?_encode n := by
    have hlt := n.toNat_lt
    simp [Format.encode, Format.decode?, hlt]

instance : LawfulFormat Bool := ⟨fun _ => rfl⟩

instance : LawfulFormat String := ⟨fun _ => rfl⟩

instance : LawfulFormat Char where
  decode?_encode c := by simp [Format.encode, Format.decode?]

instance {kind : IdentKind} : LawfulFormat (Ident kind) where
  decode?_encode id := by
    show (Format.decode? (Format.encode id.raw)).map Ident.mk = some id
    simp only [LawfulFormat.decode?_encode, Option.map_some]

instance : LawfulFormat (List α) where
  decode?_encode items := by
    show (items.map Format.encode).mapM Format.decode? = some items
    induction items with
    | nil => rfl
    | cons item rest ih => simp [ih]

instance : LawfulFormat (Array α) where
  decode?_encode items := by
    show (Format.decode? (Format.encode items.toList) : Option (List α)).map List.toArray =
      some items
    simp only [LawfulFormat.decode?_encode, Option.map_some, Array.toArray_toList]

end Munch.Json
