import Munch.Search
import Munch.Source.Basic
import Munch.Text.Width

/-!
# Texts as sources

A text is read character by character; its cursor is a byte offset.

* `Place` is a place in a text: what lies before it, nearest first, and what lies behind it.
  The offset is always the width of the part before.
* `Place.seek` moves to the last character boundary that is not behind the requested offset:
  `offset_seek_le` and `lt_offset_seek` say that the place is not behind it and that the next
  character reaches beyond it.
* `TextSource` adds the offsets at which lines start. `TextSource.position` finds the line by
  binary search and counts the characters from the start of the line. An offset inside a
  character counts bytes instead.
-/

namespace Munch

/-- A place between two characters of a text. -/
structure Place where
  /-- The characters before the place, nearest first. -/
  before : List Char
  /-- The characters behind the place. -/
  behind : List Char
  /-- The number of bytes before the place. -/
  offset : Nat
  offset_eq : offset = Text.width before
deriving Repr

namespace Place

/-- Over a character the offset grows by the width of the character. -/
theorem offset_push {before : List Char} {offset : Nat} (c : Char)
    (h : offset = Text.width before) : offset + c.utf8Size = Text.width (c :: before) := by
  simp [h, Nat.add_comm]

/-- Back over a character the offset shrinks by the width of the character. -/
theorem offset_pop {before : List Char} {offset : Nat} {c : Char}
    (h : offset = Text.width (c :: before)) : offset - c.utf8Size = Text.width before := by
  simp [h]

/-- The start of a text. -/
def start (text : List Char) : Place := ⟨[], text, 0, rfl⟩

/-- The whole text. -/
def text (p : Place) : List Char := p.before.reverse ++ p.behind

/-- The next character and the place behind it. -/
def next? (p : Place) : Option (Char × Place) :=
  match p with
  | ⟨_, [], _, _⟩ => none
  | ⟨before, c :: behind, offset, h⟩ =>
    some (c, ⟨c :: before, behind, offset + c.utf8Size, offset_push c h⟩)

/-- Goes back to a boundary that is not behind `target`. -/
def retreat (target : Nat) :
    (before behind : List Char) → (offset : Nat) → offset = Text.width before → Place
  | [], behind, offset, h => ⟨[], behind, offset, h⟩
  | c :: before, behind, offset, h =>
    if offset ≤ target then ⟨c :: before, behind, offset, h⟩
    else retreat target before (c :: behind) (offset - c.utf8Size) (offset_pop h)

/-- Goes on over the characters that end at or before `target`. -/
def advance (target : Nat) :
    (behind before : List Char) → (offset : Nat) → offset = Text.width before → Place
  | [], before, offset, h => ⟨before, [], offset, h⟩
  | c :: behind, before, offset, h =>
    if offset + c.utf8Size ≤ target then
      advance target behind (c :: before) (offset + c.utf8Size) (offset_push c h)
    else ⟨before, c :: behind, offset, h⟩

/-- Moves to the last character boundary that is not behind `target`. -/
def seek (p : Place) (target : Nat) : Place :=
  let back := retreat target p.before p.behind p.offset p.offset_eq
  advance target back.behind back.before back.offset back.offset_eq

@[simp]
theorem text_start (text : List Char) : (start text).text = text := rfl

/-- Moving does not change the text. -/
theorem text_next? {p q : Place} {c : Char} (h : p.next? = some (c, q)) : q.text = p.text := by
  obtain ⟨before, behind, offset, ho⟩ := p
  cases behind with
  | nil => cases h
  | cons d behind => cases h; simp [text]

theorem text_retreat (target : Nat) (before behind : List Char) (offset : Nat)
    (h : offset = Text.width before) :
    (retreat target before behind offset h).text = before.reverse ++ behind := by
  induction before generalizing behind offset with
  | nil => rfl
  | cons c before ih =>
    rw [retreat]
    split
    · rfl
    · rw [ih]
      simp

theorem text_advance (target : Nat) (behind before : List Char) (offset : Nat)
    (h : offset = Text.width before) :
    (advance target behind before offset h).text = before.reverse ++ behind := by
  induction behind generalizing before offset with
  | nil => rfl
  | cons c behind ih =>
    rw [advance]
    split
    · rw [ih]
      simp
    · rfl

@[simp]
theorem text_seek (p : Place) (target : Nat) : (p.seek target).text = p.text := by
  simp only [seek, text_advance]
  exact text_retreat ..

/-- Going back ends at or before the target. -/
theorem offset_retreat_le (target : Nat) (before behind : List Char) (offset : Nat)
    (h : offset = Text.width before) : (retreat target before behind offset h).offset ≤ target := by
  induction before generalizing behind offset with
  | nil => simp [retreat, h]
  | cons c before ih =>
    rw [retreat]
    split
    · assumption
    · exact ih ..

theorem offset_advance_le (target : Nat) (behind before : List Char) (offset : Nat)
    (h : offset = Text.width before) (hle : offset ≤ target) :
    (advance target behind before offset h).offset ≤ target := by
  induction behind generalizing before offset with
  | nil => exact hle
  | cons c behind ih =>
    rw [advance]
    split
    · exact ih _ _ _ ‹_›
    · exact hle

/-- The place found is not behind the target. -/
theorem offset_seek_le (p : Place) (target : Nat) : (p.seek target).offset ≤ target :=
  offset_advance_le _ _ _ _ _ (offset_retreat_le ..)

theorem lt_of_advance {target : Nat} {behind before : List Char} {offset : Nat}
    {h : offset = Text.width before} {c : Char} {rest : List Char}
    (hc : (advance target behind before offset h).behind = c :: rest) :
    target < (advance target behind before offset h).offset + c.utf8Size := by
  induction behind generalizing before offset with
  | nil => cases hc
  | cons d behind ih =>
    rw [advance] at hc ⊢
    split
    · rw [if_pos ‹_›] at hc
      exact ih hc
    · rw [if_neg ‹_›] at hc
      cases hc
      simp only
      omega

/-- The character behind the place found ends behind the target. -/
theorem lt_offset_seek {p : Place} {target : Nat} {c : Char} {rest : List Char}
    (hc : (p.seek target).behind = c :: rest) : target < (p.seek target).offset + c.utf8Size :=
  lt_of_advance hc

end Place

/-- The offsets behind the line breaks of a text that starts at `offset`. -/
def lineBreaks : Nat → List Char → List Nat
  | _, [] => []
  | offset, c :: rest =>
    let next := offset + c.utf8Size
    if c = '\n' then next :: lineBreaks next rest else lineBreaks next rest

/-- The offsets at which the lines of a text start. -/
def lineStartsOf (text : List Char) : Array Nat := (0 :: lineBreaks 0 text).toArray

/-- A text that is being read. -/
structure TextSource where
  place : Place
  /-- The offsets at which lines start. -/
  lineStarts : Array Nat
  lineStarts_eq : lineStarts = lineStartsOf place.text
deriving Repr

namespace TextSource

/-- A text, read from its start. -/
def ofString (text : String) : TextSource :=
  ⟨.start text.toList, lineStartsOf text.toList, rfl⟩

/-- The whole text. -/
def input (s : TextSource) : String := String.ofList s.place.text

/-- The part of the text that has not been read. -/
def rest (s : TextSource) : String := String.ofList s.place.behind

/-- Whether everything has been read. -/
def atEnd (s : TextSource) : Bool := s.place.behind.isEmpty

/-- The text between two offsets, if both are character boundaries in order. -/
def slice? (s : TextSource) (start stop : Nat) : Option String :=
  (Text.slice? s.place.text start stop).map String.ofList

/-- The next character. -/
def read (s : TextSource) : Option (Char × TextSource) :=
  match h : s.place.next? with
  | none => none
  | some (c, place) =>
    some (c, ⟨place, s.lineStarts, by rw [s.lineStarts_eq, Place.text_next? h]⟩)

/-- Moves to the last character boundary that is not behind `target`. -/
def seek (s : TextSource) (target : Nat) : TextSource :=
  ⟨s.place.seek target, s.lineStarts, by rw [s.lineStarts_eq, Place.text_seek]⟩

/-- The number of bytes of the whole text. -/
def size (s : TextSource) : Nat := Text.width s.place.text

/-- The index of the line that an offset lies in. -/
def lineIndex (s : TextSource) (offset : Nat) : Nat :=
  Search.partitionPointOf s.lineStarts (· ≤ offset) - 1

/-- The line and column of an offset; offsets behind the text count as its end. -/
def position (s : TextSource) (offset : Nat) : Except Fault Position := do
  let offset := min offset s.size
  let line := s.lineIndex offset
  let lineStart ← fetch s.lineStarts line
  let column :=
    match Text.slice? s.place.text lineStart offset with
    | some part => part.length
    | none => offset - lineStart
  Position.make (line + 1) (column + 1)

theorem read_eq_some {s s' : TextSource} {c : Char} (h : s.read = some (c, s')) :
    s.place.behind = c :: s'.place.behind := by
  obtain ⟨⟨before, behind, offset, ho⟩, starts, hs⟩ := s
  cases behind with
  | nil => simp [read, Place.next?] at h
  | cons d behind =>
    simp only [read, Place.next?, Option.some.injEq, Prod.mk.injEq] at h
    obtain ⟨rfl, rfl⟩ := h
    rfl

instance : Source TextSource where
  read := read
  cursor s := s.place.offset
  seek := seek
  position := position
  excerpt? s span := s.slice? span.start span.stop
  remaining s := s.place.behind.length
  remaining_lt h := by simp [read_eq_some h]

end TextSource

end Munch
