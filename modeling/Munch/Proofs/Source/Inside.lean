import Munch.Proofs.Source.Lines

/-!
# Positions inside characters

At a character boundary the column counts the characters of the line. An offset inside a character
has no such count, and there the column counts bytes. So the two kinds of columns do not fit
together: behind wide characters a column inside a character is larger than those that follow it.

* `TextSource.lead` — the characters that end at or before an offset.
* `TextSource.IsInside` — the offset lies inside a character. `TextSource.position_eq_ite` — what
  the position of any offset counts.
* `TextSource.counts_le` — both counts grow along a line.
  `TextSource.charsInLine_le_bytesInLine` — bytes are never fewer than characters.
* `TextSource.position_le_iff` — so positions follow the offsets, unless more bytes lead to an
  offset inside a character than characters to a later boundary in the same line.
* `TextSource.position_decreases` — which does happen.
-/

namespace Munch

namespace Text

theorem length_le_width (text : List Char) : text.length ≤ width text := by
  induction text with
  | nil => exact Nat.le_refl _
  | cons c rest ih =>
    have hc := c.utf8Size_pos
    rw [List.length_cons, width_cons]
    omega

/-- Without a line break the last line goes on. -/
theorem lastLine_append {text more : List Char} (h : '\n' ∉ more) :
    lastLine (text ++ more) = lastLine text ++ more := by
  induction more using List.reverseRecOn with
  | nil => rw [List.append_nil, List.append_nil]
  | append_singleton more c ih =>
    simp only [List.mem_append, List.mem_singleton, not_or] at h
    rw [← List.append_assoc, lastLine_concat, if_neg (Ne.symm h.2), ih h.1, List.append_assoc]

/-- Without a line break the earlier lines stay. -/
theorem earlierLines_append {text more : List Char} (h : '\n' ∉ more) :
    earlierLines (text ++ more) = earlierLines text := by
  have hcut := earlierLines_append_lastLine (text ++ more)
  rw [lastLine_append h, ← List.append_assoc] at hcut
  have hlead := List.append_cancel_right hcut
  exact List.append_cancel_right (hlead.trans (earlierLines_append_lastLine text).symm)

end Text

theorem le_of_mem_lineBreaks_cons {c : Char} {rest : List Char} {offset n : Nat}
    (h : n ∈ lineBreaks offset (c :: rest)) : offset + c.utf8Size ≤ n := by
  rw [lineBreaks] at h
  split at h
  · rcases List.mem_cons.1 h with rfl | h
    · exact Nat.le_refl _
    · exact Nat.le_of_lt (lt_of_mem_lineBreaks h)
  · exact Nat.le_of_lt (lt_of_mem_lineBreaks h)

namespace TextSource

variable {s : TextSource} {a b n : Nat}

/-- The offset lies inside a character. -/
def IsInside (s : TextSource) (n : Nat) : Prop := n < s.size ∧ ¬Text.IsBoundary s.place.text n

instance (s : TextSource) (n : Nat) : Decidable (s.IsInside n) :=
  inferInstanceAs (Decidable (_ ∧ _))

/-- The characters that end at or before an offset. -/
def lead (s : TextSource) (n : Nat) : List Char := (s.seek n).place.before.reverse

/-- The number of characters between the start of its line and an offset. -/
def charsInLine (s : TextSource) (n : Nat) : Nat := (Text.lastLine (s.lead n)).length

/-- The number of bytes between the start of its line and an offset. -/
def bytesInLine (s : TextSource) (n : Nat) : Nat := n - Text.width (Text.earlierLines (s.lead n))

/-! ## The characters before an offset -/

theorem text_eq_lead_append (s : TextSource) (n : Nat) :
    s.place.text = s.lead n ++ (s.seek n).place.behind :=
  (s.text_seek n).symm

theorem width_lead (s : TextSource) (n : Nat) :
    Text.width (s.lead n) = (s.seek n).place.offset := by
  rw [lead, Text.width_reverse, ← Place.offset_eq]

theorem width_lead_le (s : TextSource) (n : Nat) : Text.width (s.lead n) ≤ n := by
  rw [width_lead]
  exact Place.offset_seek_le ..

/-- The next character ends behind the offset. -/
theorem lt_width_lead_add {c : Char} {rest : List Char}
    (h : (s.seek n).place.behind = c :: rest) : n < Text.width (s.lead n) + c.utf8Size := by
  rw [width_lead]
  exact Place.lt_offset_seek h

/-- Before a larger offset there are more characters. -/
theorem lead_append (s : TextSource) (hab : a ≤ b) : ∃ more, s.lead b = s.lead a ++ more := by
  have hsame := (s.text_eq_lead_append b).symm.trans (s.text_eq_lead_append a)
  have hle : Text.width (s.lead a) ≤ Text.width (s.lead b) := by
    rw [width_lead, width_lead]
    exact Place.offset_le_seek (s.text_seek a) (Nat.le_trans (Place.offset_seek_le ..) hab)
  rcases Nat.eq_or_lt_of_le hle with heq | hlt
  · exact ⟨[], by rw [(Text.append_inj_of_width hsame heq.symm).1, List.append_nil]⟩
  · obtain ⟨c, more, hmore⟩ := Text.exists_append_of_width_lt hsame.symm hlt
    exact ⟨c :: more, hmore⟩

theorem size_eq (s : TextSource) (n : Nat) :
    s.size = Text.width (s.lead n) + Text.width (s.seek n).place.behind := by
  rw [← Text.width_append, ← text_eq_lead_append, size]

theorem width_lead_of_not_inside (h : ¬s.IsInside n) : Text.width (s.lead n) = min n s.size := by
  by_cases hn : n < s.size
  · have hb : Text.IsBoundary s.place.text n := Decidable.of_not_not fun hb => h ⟨hn, hb⟩
    rw [width_lead, offset_seek_of_isBoundary hb, Nat.min_eq_left (Nat.le_of_lt hn)]
  · have hsize := s.size_eq n
    cases hbehind : (s.seek n).place.behind with
    | nil =>
      rw [hbehind, Text.width_nil, Nat.add_zero] at hsize
      omega
    | cons c rest =>
      -- the next character would end behind the offset, which is not before the end of the text
      have hlt := lt_width_lead_add hbehind
      rw [hbehind, Text.width_cons] at hsize
      omega

theorem behind_of_inside (h : s.IsInside n) : ∃ c rest, (s.seek n).place.behind = c :: rest ∧
    n < Text.width (s.lead n) + c.utf8Size := by
  have hsize := s.size_eq n
  cases hbehind : (s.seek n).place.behind with
  | nil =>
    have hle := s.width_lead_le n
    rw [hbehind, Text.width_nil, Nat.add_zero] at hsize
    have hn := h.1
    omega
  | cons c rest => exact ⟨c, rest, rfl, lt_width_lead_add hbehind⟩

/-! ## What a position counts -/

/-- **The line counts line breaks. The column counts characters, but bytes inside a character.** -/
theorem position_eq_ite (s : TextSource) (n : Nat) :
    s.position n = .ok ⟨(s.lead n).count '\n' + 1,
      (if s.IsInside n then s.bytesInLine n else s.charsInLine n) + 1⟩ := by
  have htext := s.text_eq_lead_append n
  split
  · rename_i hinside
    obtain ⟨c, rest, hbehind, hlt⟩ := behind_of_inside hinside
    rw [hbehind] at htext
    have hstarts : ∀ k ∈ lineBreaks (Text.width (s.lead n)) (c :: rest), n < k := by
      intro k hk
      exact Nat.lt_of_lt_of_le hlt (le_of_mem_lineBreaks_cons hk)
    have hslice : Text.slice? s.place.text (Text.width (Text.earlierLines (s.lead n))) n = none :=
      Option.eq_none_iff_forall_ne_some.2 fun part hpart =>
        hinside.2 (Text.isBoundary_of_slice? hpart).2
    rw [position_eq htext (s.width_lead_le n) hstarts (Nat.le_of_lt hinside.1), hslice]
    rfl
  · rename_i hinside
    have hwidth := width_lead_of_not_inside hinside
    have hposition := position_width htext
    rw [hwidth, position_min] at hposition
    exact hposition

theorem charsInLine_le_bytesInLine (s : TextSource) (n : Nat) :
    s.charsInLine n ≤ s.bytesInLine n := by
  have hcut := congrArg Text.width (Text.earlierLines_append_lastLine (s.lead n))
  have hlength := Text.length_le_width (Text.lastLine (s.lead n))
  have hle := s.width_lead_le n
  rw [Text.width_append] at hcut
  unfold charsInLine bytesInLine
  omega

/-- Along a line both counts grow; from line to line the number of line breaks does. -/
theorem counts_le (s : TextSource) (hab : a ≤ b) :
    (s.lead a).count '\n' ≤ (s.lead b).count '\n' ∧
      ((s.lead a).count '\n' = (s.lead b).count '\n' →
        s.charsInLine a ≤ s.charsInLine b ∧ s.bytesInLine a ≤ s.bytesInLine b) := by
  obtain ⟨more, hmore⟩ := s.lead_append hab
  unfold charsInLine bytesInLine
  rw [hmore, List.count_append]
  refine ⟨Nat.le_add_right _ _, fun hsame => ?_⟩
  have hnone : '\n' ∉ more := List.count_eq_zero.1 (by omega)
  rw [Text.lastLine_append hnone, Text.earlierLines_append hnone, List.length_append]
  omega

/-- **When positions follow the offsets.** Lines always do. With `a ≤ b` the position of `a` is
behind that of `b` if and only if `a` lies inside a character and `b` does not, both are in the same
line, and more bytes lie between the start of the line and `a` than characters between it and `b`.
So it never is where `a` is a character boundary or behind the text. -/
theorem position_le_iff (s : TextSource) (hab : a ≤ b) :
    ∃ p q, s.position a = .ok p ∧ s.position b = .ok q ∧ p.line ≤ q.line ∧
      (p ≤ q ↔ ¬(s.IsInside a ∧ ¬s.IsInside b ∧ p.line = q.line ∧
        s.charsInLine b < s.bytesInLine a)) := by
  obtain ⟨hlines, hline⟩ := s.counts_le hab
  have hfit := s.charsInLine_le_bytesInLine b
  refine ⟨_, _, s.position_eq_ite a, s.position_eq_ite b, Nat.succ_le_succ hlines, ?_⟩
  rw [Position.le_def]
  dsimp only
  by_cases ha : s.IsInside a
  · rw [if_pos ha]
    by_cases hb : s.IsInside b
    · -- bytes against bytes
      rw [if_pos hb]
      refine iff_of_true ?_ (fun h => h.2.1 hb)
      omega
    · -- bytes against characters, the one case in which the columns may not fit
      rw [if_neg hb]
      simp only [ha, hb, not_false_eq_true, true_and]
      omega
  · -- characters are never more than what is counted at a larger offset
    rw [if_neg ha]
    refine iff_of_true ?_ (fun h => ha h.1)
    split
    · omega
    · omega

/-- Inside the first wide character of a line, if it takes two bytes, the order is kept. -/
theorem position_le_iff_first :
    (1 : Nat) ≤ 2 ∧ ∃ p q, (ofString "éa").position 1 = .ok p ∧ (ofString "éa").position 2 = .ok q ∧
      (ofString "éa").IsInside 1 ∧ p ≤ q := by
  obtain ⟨p, q, hp, hq, _, hiff⟩ := position_le_iff (ofString "éa") (by decide : 1 ≤ 2)
  have hinside : (ofString "éa").IsInside 1 := by decide +kernel
  have hfits : ¬(ofString "éa").charsInLine 2 < (ofString "éa").bytesInLine 1 := by decide +kernel
  exact ⟨by decide, p, q, hp, hq, hinside, hiff.2 fun h => hfits h.2.2.2⟩

/-- **A position may be behind that of a larger offset**: two bytes into a character of three bytes
the column is 3, and behind the character it is 2. -/
theorem position_decreases :
    (2 : Nat) ≤ 3 ∧ ∃ p q, (ofString "€").position 2 = .ok p ∧ (ofString "€").position 3 = .ok q ∧
      ¬p ≤ q :=
  ⟨by decide, ⟨1, 3⟩, ⟨1, 2⟩, by decide +kernel, by decide +kernel, by decide⟩

end TextSource

end Munch
