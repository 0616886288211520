import Munch.Source.Text

/-!
# Cursors of a text

A text and an offset determine a place, so that seeking is a function of the two alone.

* `Place.eq_of_offset`, `TextSource.eq_of_cursor` — places of one text with one offset are equal.
* `Place.offset_le_seek` — of all boundaries that are not behind the target, `seek` finds the last.
  `TextSource.seek_cursor` — seeking a cursor that some source over the text has reported restores
  that source exactly.
* `TextSource.read_nil`, `TextSource.read_cons` — reading delivers the text behind the cursor.
* `Text.stepBack` goes back byte by byte until it meets a boundary. `TextSource.safe` collects what
  the operations on a text rely on: the cursor is a boundary, stepping back meets one, and neither
  subtraction of `TextSource.position` is cut off at zero.
-/

namespace Munch

namespace Text

/-- The width of a text is the size of its UTF-8 form. -/
theorem width_toList (text : String) : width text.toList = text.utf8ByteSize := by
  rw [← text.ofList_toList, String.toList_ofList]
  induction text.toList with
  | nil => rfl
  | cons c rest ih => simp [String.ofList_cons, ih]

/-- An offset between two characters, or at an end of the text. -/
def IsBoundary (text : List Char) (n : Nat) : Prop := (splitAt? text n).isSome = true

instance (text : List Char) (n : Nat) : Decidable (IsBoundary text n) :=
  inferInstanceAs (Decidable (_ = true))

theorem isBoundary_iff {text : List Char} {n : Nat} :
    IsBoundary text n ↔ ∃ a b, text = a ++ b ∧ width a = n := by
  unfold IsBoundary
  rw [Option.isSome_iff_exists]
  constructor
  · rintro ⟨⟨a, b⟩, h⟩
    exact ⟨a, b, splitAt?_eq_some_iff.1 h⟩
  · rintro ⟨a, b, h⟩
    exact ⟨(a, b), splitAt?_eq_some_iff.2 h⟩

/-- A text is cut in one way only at a given width. -/
theorem append_inj_of_width {a b a' b' : List Char} (h : a ++ b = a' ++ b')
    (hw : width a = width a') : a = a' ∧ b = b' := by
  have hs := splitAt?_width_append a b
  rw [h, hw, splitAt?_width_append a' b'] at hs
  cases hs
  exact ⟨rfl, rfl⟩

theorem slice?_eq_some_iff {text part : List Char} {start stop : Nat} :
    slice? text start stop = some part ↔
      ∃ a b, text = a ++ part ++ b ∧ width a = start ∧ start + width part = stop := by
  unfold slice?
  constructor
  · intro h
    split at h
    · rename_i hle
      simp only [Option.bind_eq_bind, Option.bind_eq_some_iff, Prod.exists] at h
      obtain ⟨a, rest, h₁, part', b, h₂, h₃⟩ := h
      cases h₃
      obtain ⟨rfl, ha⟩ := splitAt?_eq_some_iff.1 h₁
      obtain ⟨rfl, hp⟩ := splitAt?_eq_some_iff.1 h₂
      exact ⟨a, b, by simp, ha, by omega⟩
    · cases h
  · rintro ⟨a, b, rfl, rfl, rfl⟩
    rw [if_pos (Nat.le_add_right _ _), List.append_assoc, splitAt?_width_append,
      Nat.add_sub_cancel_left]
    simp [splitAt?_width_append]

theorem isBoundary_of_slice? {text part : List Char} {start stop : Nat}
    (h : slice? text start stop = some part) : IsBoundary text start ∧ IsBoundary text stop := by
  obtain ⟨a, b, htext, ha, hpart⟩ := slice?_eq_some_iff.1 h
  constructor
  · exact isBoundary_iff.2 ⟨a, part ++ b, by rw [htext, List.append_assoc], ha⟩
  · exact isBoundary_iff.2 ⟨a ++ part, b, htext, by rw [width_append, ha, hpart]⟩

theorem slice?_self {text : List Char} {n : Nat} (h : IsBoundary text n) :
    slice? text n n = some [] := by
  obtain ⟨a, b, htext, ha⟩ := isBoundary_iff.1 h
  exact slice?_eq_some_iff.2 ⟨a, b, by rw [htext, List.append_nil], ha, rfl⟩

/-- Adjacent parts make up the part that they cover. -/
theorem slice?_append {text x y : List Char} {a b c : Nat} (hx : slice? text a b = some x)
    (hy : slice? text b c = some y) : slice? text a c = some (x ++ y) := by
  obtain ⟨u, v, htext, hu, hwx⟩ := slice?_eq_some_iff.1 hx
  obtain ⟨u', v', htext', hu', hwy⟩ := slice?_eq_some_iff.1 hy
  have hcut : u ++ x ++ v = u' ++ (y ++ v') := by rw [← htext, htext', List.append_assoc]
  obtain ⟨hbefore, rfl⟩ := append_inj_of_width hcut (by rw [width_append]; omega)
  refine slice?_eq_some_iff.2 ⟨u, v', ?_, hu, ?_⟩
  · rw [htext, List.append_assoc, List.append_assoc, List.append_assoc]
  · rw [width_append]
    omega

/-- Goes back byte by byte to a character boundary; nothing if there is none. -/
def stepBack (text : List Char) : Nat → Option Nat
  | 0 => if IsBoundary text 0 then some 0 else none
  | n + 1 => if IsBoundary text (n + 1) then some (n + 1) else stepBack text n

/-- Stepping back stops at the last boundary that is not behind its start. -/
theorem stepBack_eq_some {text : List Char} {k n : Nat} (hk : IsBoundary text k) (hle : k ≤ n)
    (hmax : ∀ j, IsBoundary text j → j ≤ n → j ≤ k) : stepBack text n = some k := by
  induction n with
  | zero =>
    obtain rfl : k = 0 := by omega
    rw [stepBack, if_pos hk]
  | succ n ih =>
    rw [stepBack]
    split
    · rename_i hb
      have := hmax _ hb (Nat.le_refl _)
      obtain rfl : k = n + 1 := by omega
      rfl
    · rename_i hb
      have hne : k ≠ n + 1 := fun h => hb (h ▸ hk)
      exact ih (by omega) (fun j hj hjn => hmax j hj (by omega))

end Text

namespace Place

variable {p q : Place}

theorem offset_le_width (p : Place) : p.offset ≤ Text.width p.text := by
  rw [p.offset_eq, text, Text.width_append, Text.width_reverse]
  exact Nat.le_add_right _ _

theorem isBoundary (p : Place) : Text.IsBoundary p.text p.offset :=
  Text.isBoundary_iff.2 ⟨p.before.reverse, p.behind, rfl, by rw [Text.width_reverse, p.offset_eq]⟩

/-- Every boundary of a text is the offset of a place. -/
theorem exists_of_isBoundary {text : List Char} {n : Nat} (h : Text.IsBoundary text n) :
    ∃ p : Place, p.text = text ∧ p.offset = n := by
  obtain ⟨a, b, rfl, rfl⟩ := Text.isBoundary_iff.1 h
  exact ⟨⟨a.reverse, b, Text.width a, by simp⟩, by simp [Place.text], rfl⟩

/-- **A text and an offset determine the place.** -/
theorem eq_of_offset (ht : p.text = q.text) (ho : p.offset = q.offset) : p = q := by
  have hw : Text.width p.before.reverse = Text.width q.before.reverse := by
    rw [Text.width_reverse, Text.width_reverse, ← p.offset_eq, ← q.offset_eq, ho]
  obtain ⟨hbefore, hbehind⟩ := Text.append_inj_of_width ht hw
  obtain ⟨before, behind, offset, h⟩ := p
  obtain ⟨before', behind', offset', h'⟩ := q
  obtain rfl : before = before' := List.reverse_inj.1 hbefore
  cases hbehind
  cases ho
  rfl

/-- **Seeking finds the last boundary that is not behind the target.** -/
theorem offset_le_seek (ht : q.text = p.text) {target : Nat} (hq : q.offset ≤ target) :
    q.offset ≤ (p.seek target).offset := by
  have htext : (p.seek target).text = q.text := by rw [text_seek, ht]
  have hp := (p.seek target).offset_eq
  rcases List.append_eq_append_iff.1 htext with ⟨as, hb, has⟩ | ⟨cs, hb, _⟩
  · cases as with
    | nil =>
      have := congrArg Text.width hb
      simp only [List.append_nil, Text.width_reverse, ← hp, ← q.offset_eq] at this
      omega
    | cons c as =>
      -- the next character would still have fitted
      have hlt := lt_offset_seek has
      have := congrArg Text.width hb
      simp only [Text.width_append, Text.width_reverse, Text.width_cons, ← hp,
        ← q.offset_eq] at this
      omega
  · have := congrArg Text.width hb
    simp only [Text.width_append, Text.width_reverse, ← hp, ← q.offset_eq] at this
    omega

theorem seek_offset (ht : q.text = p.text) : p.seek q.offset = q :=
  eq_of_offset (by rw [text_seek, ht])
    (Nat.le_antisymm (offset_seek_le p _) (offset_le_seek ht (Nat.le_refl _)))

end Place

namespace TextSource

variable {s s' : TextSource}

theorem eq_of_place (h : s.place = s'.place) : s = s' := by
  obtain ⟨place, starts, hs⟩ := s
  obtain ⟨place', starts', hs'⟩ := s'
  cases h
  cases hs
  cases hs'
  rfl

theorem eq_of_cursor (ht : s.place.text = s'.place.text) (ho : s.place.offset = s'.place.offset) :
    s = s' :=
  eq_of_place (Place.eq_of_offset ht ho)

@[simp]
theorem text_seek (s : TextSource) (n : Nat) : (s.seek n).place.text = s.place.text :=
  Place.text_seek s.place n

/-- Going to a cursor that a source over the same text has reported restores that source. -/
theorem seek_cursor (h : s'.place.text = s.place.text) : s.seek s'.place.offset = s' :=
  eq_of_place (Place.seek_offset h)

@[simp]
theorem seek_self (s : TextSource) : s.seek s.place.offset = s := seek_cursor rfl

/-- Where a source goes depends on its text only. -/
theorem seek_congr (h : s.place.text = s'.place.text) (n : Nat) : s.seek n = s'.seek n := by
  have hle := Place.offset_seek_le s.place n
  have hle' := Place.offset_seek_le s'.place n
  refine eq_of_cursor (by rw [text_seek, text_seek, h]) (Nat.le_antisymm ?_ ?_)
  · exact Place.offset_le_seek (by rw [text_seek]; exact h) hle
  · exact Place.offset_le_seek (by rw [text_seek]; exact h.symm) hle'

@[simp]
theorem seek_seek (s : TextSource) (a b : Nat) : (s.seek a).seek b = s.seek b :=
  seek_congr (text_seek s a) b

theorem offset_seek_of_isBoundary {n : Nat} (h : Text.IsBoundary s.place.text n) :
    (s.seek n).place.offset = n := by
  obtain ⟨q, hq, rfl⟩ := Place.exists_of_isBoundary h
  show (s.place.seek q.offset).offset = q.offset
  rw [Place.seek_offset hq]

theorem read_nil (h : s.place.behind = []) : s.read = none := by
  obtain ⟨⟨before, behind, offset, ho⟩, starts, hs⟩ := s
  cases h
  rfl

theorem read_cons {c : Char} {rest : List Char} (h : s.place.behind = c :: rest) :
    ∃ s', s.read = some (c, s') ∧ s'.place.text = s.place.text ∧ s'.place.behind = rest ∧
      s'.place.offset = s.place.offset + c.utf8Size := by
  obtain ⟨⟨before, behind, offset, ho⟩, starts, hs⟩ := s
  cases h
  exact ⟨_, rfl, by simp [Place.text], rfl, rfl⟩

/-- The cursor behind a leading part of the unread text. -/
theorem seek_behind {a b : List Char} (h : s.place.behind = a ++ b) :
    (s.seek (s.place.offset + Text.width a)).place.offset = s.place.offset + Text.width a ∧
      (s.seek (s.place.offset + Text.width a)).place.behind = b := by
  let q : Place := ⟨a.reverse ++ s.place.before, b, s.place.offset + Text.width a, by
    rw [Text.width_append, Text.width_reverse, s.place.offset_eq, Nat.add_comm]⟩
  have hq : q.text = s.place.text := by simp [q, Place.text, h]
  have hseek : (s.seek (s.place.offset + Text.width a)).place = q := Place.seek_offset hq
  rw [hseek]
  exact ⟨rfl, rfl⟩

/-- The cursor behind the next character. -/
theorem offset_seek_over {c : Char} {rest : List Char} (h : s.place.behind = c :: rest) :
    (s.seek (s.place.offset + c.utf8Size)).place.offset = s.place.offset + c.utf8Size := by
  have hbehind : s.place.behind = [c] ++ rest := h
  exact (seek_behind hbehind).1

theorem slice?_behind {a b : List Char} (h : s.place.behind = a ++ b) :
    Text.slice? s.place.text s.place.offset (s.place.offset + Text.width a) = some a := by
  refine Text.slice?_eq_some_iff.2 ⟨s.place.before.reverse, b, ?_, ?_, rfl⟩
  · rw [Place.text, h, List.append_assoc]
  · rw [Text.width_reverse, s.place.offset_eq]

theorem offset_of_behind_nil (h : s.place.behind = []) :
    s.place.offset = Text.width s.place.text := by
  rw [s.place.offset_eq, Place.text, h, List.append_nil, Text.width_reverse]

end TextSource

/-! ## Lines -/

theorem lt_of_mem_lineBreaks {text : List Char} {offset n : Nat} (h : n ∈ lineBreaks offset text) :
    offset < n := by
  induction text generalizing offset with
  | nil => cases h
  | cons c rest ih =>
    have hc := c.utf8Size_pos
    rw [lineBreaks] at h
    split at h
    · rcases List.mem_cons.1 h with rfl | h
      · omega
      · have := ih h
        omega
    · have := ih h
      omega

theorem pairwise_lineBreaks (text : List Char) (offset : Nat) :
    (lineBreaks offset text).Pairwise (· < ·) := by
  induction text generalizing offset with
  | nil => exact .nil
  | cons c rest ih =>
    rw [lineBreaks]
    split
    · exact List.pairwise_cons.2 ⟨fun n hn => lt_of_mem_lineBreaks hn, ih _⟩
    · exact ih _

theorem lineStartsOf_mono (text : List Char) {i j : Nat} (hi : i < (lineStartsOf text).size)
    (hj : j < (lineStartsOf text).size) (hij : i ≤ j) :
    (lineStartsOf text)[i] ≤ (lineStartsOf text)[j] := by
  have hp : (0 :: lineBreaks 0 text).Pairwise (· < ·) :=
    List.pairwise_cons.2 ⟨fun n hn => lt_of_mem_lineBreaks hn, pairwise_lineBreaks text 0⟩
  rcases Nat.eq_or_lt_of_le hij with rfl | hlt
  · exact Nat.le_refl _
  · exact Nat.le_of_lt (List.pairwise_iff_getElem.1 hp i j (by simpa [lineStartsOf] using hi)
      (by simpa [lineStartsOf] using hj) hlt)

namespace TextSource

theorem lineStarts_pos (s : TextSource) : 0 < s.lineStarts.size := by
  rw [s.lineStarts_eq]
  simp [lineStartsOf]

/-- The search for a line finds exactly the lines that start at or before the offset. -/
theorem lt_lineSearch_iff (s : TextSource) (offset : Nat) {i : Nat} (hi : i < s.lineStarts.size) :
    i < Search.partitionPointOf s.lineStarts (· ≤ offset) ↔ s.lineStarts[i] ≤ offset := by
  rw [Search.lt_partitionPointOf_iff ?_ hi]
  · exact decide_eq_true_iff
  · intro a b ha hb hab h
    have hmono : s.lineStarts[a] ≤ s.lineStarts[b] := by
      simp only [s.lineStarts_eq] at ha hb ⊢
      exact lineStartsOf_mono _ ha hb hab
    exact decide_eq_true (Nat.le_trans hmono (of_decide_eq_true h))

/-- The first line starts at zero, so that some line starts at or before every offset. -/
theorem lineSearch_pos (s : TextSource) (offset : Nat) :
    0 < Search.partitionPointOf s.lineStarts (· ≤ offset) := by
  rw [lt_lineSearch_iff s offset s.lineStarts_pos]
  simp [s.lineStarts_eq, lineStartsOf]

theorem lineIndex_lt (s : TextSource) (offset : Nat) : s.lineIndex offset < s.lineStarts.size := by
  have hpos := s.lineSearch_pos offset
  have hle := Search.partitionPointOf_le s.lineStarts (· ≤ offset)
  unfold lineIndex
  omega

theorem lineStart_le (s : TextSource) (offset : Nat)
    (h : s.lineIndex offset < s.lineStarts.size) : s.lineStarts[s.lineIndex offset] ≤ offset := by
  rw [← lt_lineSearch_iff s offset h]
  have := s.lineSearch_pos offset
  unfold lineIndex
  omega

theorem position_eq_ok (s : TextSource) (offset : Nat) : ∃ p, s.position offset = .ok p := by
  unfold position
  simp only [fetch_of_lt (s.lineIndex_lt _)]
  exact ⟨_, Position.make_of_pos (Nat.le_add_left ..) (Nat.le_add_left ..)⟩

/-- What the operations on a text rely on. -/
structure Safe (s : TextSource) : Prop where
  /-- The text is read from a character boundary. -/
  boundary : Text.IsBoundary s.place.text s.place.offset
  /-- Stepping back from any offset, cut off at the end of the text, meets the boundary at which
  `seek` arrives. -/
  stepBack : ∀ target, Text.stepBack s.place.text (min target s.size) =
    some (s.seek target).place.offset
  /-- The search for a line does not come back empty, so that one may be taken off its result. -/
  line : ∀ offset, 1 ≤ Search.partitionPointOf s.lineStarts (· ≤ min offset s.size)
  /-- The line found does not start behind the offset, so that the one may be taken off the
  other. -/
  column : ∀ offset, ∃ start, fetch s.lineStarts (s.lineIndex (min offset s.size)) = .ok start ∧
    start ≤ min offset s.size

/-- **Reading, seeking and locating are safe on every text.** -/
theorem safe (s : TextSource) : s.Safe where
  boundary := s.place.isBoundary
  stepBack target := by
    have hb := (s.seek target).place.isBoundary
    rw [text_seek] at hb
    have hle : (s.seek target).place.offset ≤ s.size := by
      have := (s.seek target).place.offset_le_width
      rwa [text_seek] at this
    refine Text.stepBack_eq_some hb (Nat.le_min.2 ⟨Place.offset_seek_le .., hle⟩) ?_
    intro j hj hjle
    obtain ⟨q, hq, rfl⟩ := Place.exists_of_isBoundary hj
    exact Place.offset_le_seek hq (Nat.le_trans hjle (Nat.min_le_left ..))
  line offset := s.lineSearch_pos _
  column offset := ⟨_, fetch_of_lt (s.lineIndex_lt _), s.lineStart_le _ _⟩

end TextSource

end Munch
