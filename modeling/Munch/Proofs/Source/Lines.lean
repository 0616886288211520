import Mathlib.Data.List.Induction
import Munch.Proofs.Source.Cursor

/-!
# Lines and columns of a text

A line and a column are looked up in the table of line starts, by binary search over byte offsets.
They are those that a walk over the text counts.

* `Text.lastLine`, `Text.earlierLines` — a text is cut in two behind its last line break.
* `Position.behind` — the position behind a text, counted. `Position.step` — the position behind one
  more character. `Position.behind_append` — counting is walking.
* `lineBreaks_append` — the table of line starts is made part by part.
  `TextSource.getElem?_lineStarts`, `TextSource.lineIndex_eq` — so the search finds the last line of
  the part before an offset.
* `TextSource.position_width` — at a character boundary, looking up is counting.
  `TextSource.position_lt_iff` — so positions at character boundaries are ordered as the offsets
  are.
* `TextSource.position_counts` — all of this for the positions of a text.
-/

namespace Munch

/-! ## Counting -/

namespace Text

/-- What stands behind the last line break of a text. -/
def lastLine (text : List Char) : List Char := (text.reverse.takeWhile (· ≠ '\n')).reverse

/-- A text up to and including its last line break. -/
def earlierLines (text : List Char) : List Char := (text.reverse.dropWhile (· ≠ '\n')).reverse

theorem earlierLines_append_lastLine (text : List Char) :
    earlierLines text ++ lastLine text = text := by
  unfold earlierLines lastLine
  rw [← List.reverse_append, List.takeWhile_append_dropWhile, List.reverse_reverse]

theorem lastLine_concat (text : List Char) (c : Char) :
    lastLine (text ++ [c]) = if c = '\n' then [] else lastLine text ++ [c] := by
  unfold lastLine
  rw [List.reverse_concat, List.takeWhile_cons]
  by_cases hc : c = '\n'
  · simp [hc]
  · simp [hc]

theorem earlierLines_concat (text : List Char) (c : Char) :
    earlierLines (text ++ [c]) = if c = '\n' then text ++ [c] else earlierLines text := by
  unfold earlierLines
  rw [List.reverse_concat, List.dropWhile_cons]
  by_cases hc : c = '\n'
  · simp [hc]
  · simp [hc]

/-- Of two leading parts of a text the wider one goes on behind the other. -/
theorem exists_append_of_width_lt {a b a' b' : List Char} (h : a ++ b = a' ++ b')
    (hw : width a < width a') : ∃ c more, a' = a ++ c :: more := by
  rcases List.append_eq_append_iff.1 h with ⟨more, rfl, _⟩ | ⟨more, rfl, _⟩
  · cases more with
    | nil => simp at hw
    | cons c more => exact ⟨c, more, rfl⟩
  · rw [width_append] at hw
    omega

end Text

namespace Position

/-- The position behind one more character. -/
def step (p : Position) (c : Char) : Position :=
  if c = '\n' then ⟨p.line + 1, 1⟩ else ⟨p.line, p.column + 1⟩

/-- The position behind a text: one more than its line breaks, and one more than the characters of
its last line. -/
def behind (text : List Char) : Position :=
  ⟨text.count '\n' + 1, (Text.lastLine text).length + 1⟩

theorem lt_irrefl (p : Position) : ¬p < p := by
  rw [lt_def]
  omega

theorem lt_trans {p q r : Position} (h : p < q) (h' : q < r) : p < r := by
  rw [lt_def] at *
  omega

theorem lt_step (p : Position) (c : Char) : p < p.step c := by
  rw [lt_def, step]
  split
  · exact Or.inl (Nat.lt_succ_self _)
  · exact Or.inr ⟨rfl, Nat.lt_succ_self _⟩

/-- Every character leads on. -/
theorem lt_foldl_step (p : Position) (c : Char) (text : List Char) :
    p < (c :: text).foldl step p := by
  induction text generalizing p c with
  | nil => exact lt_step p c
  | cons d rest ih => exact lt_trans (lt_step p c) (ih (p.step c) d)

theorem behind_concat (text : List Char) (c : Char) :
    behind (text ++ [c]) = (behind text).step c := by
  unfold behind step
  rw [Text.lastLine_concat, List.count_append]
  split
  · rename_i hc
    simp [hc]
  · rename_i hc
    simp [hc]

/-- **Counting is walking.** -/
theorem behind_append (text more : List Char) :
    behind (text ++ more) = more.foldl step (behind text) := by
  induction more generalizing text with
  | nil => rw [List.append_nil, List.foldl_nil]
  | cons c more ih => rw [List.append_cons, ih, behind_concat, List.foldl_cons]

/-- Of two leading parts of a text the wider one leads on. -/
theorem behind_lt {a b a' b' : List Char} (h : a ++ b = a' ++ b')
    (hw : Text.width a < Text.width a') : behind a < behind a' := by
  obtain ⟨c, more, rfl⟩ := Text.exists_append_of_width_lt h hw
  rw [behind_append]
  exact lt_foldl_step _ c more

end Position

/-! ## The table of line starts -/

theorem lineBreaks_append (offset : Nat) (a b : List Char) :
    lineBreaks offset (a ++ b) = lineBreaks offset a ++ lineBreaks (offset + Text.width a) b := by
  induction a generalizing offset with
  | nil => rfl
  | cons c rest ih =>
    rw [List.cons_append, lineBreaks, lineBreaks, ih, Text.width_cons, Nat.add_assoc]
    split
    · rfl
    · rfl

/-- There is one line start for each line break. -/
theorem length_lineBreaks (offset : Nat) (text : List Char) :
    (lineBreaks offset text).length = text.count '\n' := by
  induction text generalizing offset with
  | nil => rfl
  | cons c rest ih =>
    rw [lineBreaks, List.count_cons]
    split
    · rename_i hc
      simp [hc, ih]
    · rename_i hc
      simp [hc, ih]

/-- The last line of a text starts behind its earlier lines. -/
theorem getLast?_lineBreaks (text : List Char) :
    (0 :: lineBreaks 0 text).getLast? = some (Text.width (Text.earlierLines text)) := by
  induction text using List.reverseRecOn with
  | nil => rfl
  | append_singleton text c ih =>
    rw [lineBreaks_append, Text.earlierLines_concat, ← List.cons_append]
    by_cases hc : c = '\n'
    · have hone : lineBreaks (0 + Text.width text) [c] = [Text.width (text ++ [c])] := by
        simp [lineBreaks, hc]
      rw [hone, if_pos hc, List.getLast?_concat]
    · have hnone : lineBreaks (0 + Text.width text) [c] = [] := by simp [lineBreaks, hc]
      rw [hnone, if_neg hc, List.append_nil, ih]

namespace TextSource

variable {s : TextSource} {lead rest : List Char} {n : Nat}

theorem lineStarts_append (h : s.place.text = lead ++ rest) :
    s.lineStarts.toList = (0 :: lineBreaks 0 lead) ++ lineBreaks (Text.width lead) rest := by
  rw [s.lineStarts_eq, h, lineStartsOf, lineBreaks_append, Nat.zero_add]
  rfl

/-- The line in which a leading part of the text ends starts behind the earlier lines of that
part. -/
theorem getElem?_lineStarts (h : s.place.text = lead ++ rest) :
    s.lineStarts[lead.count '\n']? = some (Text.width (Text.earlierLines lead)) := by
  have hlast := getLast?_lineBreaks lead
  rw [List.getLast?_eq_getElem?, List.length_cons, length_lineBreaks, Nat.add_sub_cancel] at hlast
  rw [← Array.getElem?_toList, lineStarts_append h, List.getElem?_append_left, hlast]
  rw [List.length_cons, length_lineBreaks]
  exact Nat.lt_succ_self _

theorem width_earlierLines_le (text : List Char) :
    Text.width (Text.earlierLines text) ≤ Text.width text := by
  have hcut := congrArg Text.width (Text.earlierLines_append_lastLine text)
  rw [Text.width_append] at hcut
  omega

/-- **The search finds the last line of the part before an offset**, as long as no line starts
between that part and the offset. -/
theorem lineIndex_eq (h : s.place.text = lead ++ rest) (hle : Text.width lead ≤ n)
    (hlt : ∀ k ∈ lineBreaks (Text.width lead) rest, n < k) : s.lineIndex n = lead.count '\n' := by
  obtain ⟨hi, hstart⟩ := Array.getElem?_eq_some_iff.1 (getElem?_lineStarts h)
  have hbelow : lead.count '\n' < Search.partitionPointOf s.lineStarts (· ≤ n) := by
    rw [s.lt_lineSearch_iff n hi, hstart]
    exact Nat.le_trans (width_earlierLines_le lead) hle
  have habove : Search.partitionPointOf s.lineStarts (· ≤ n) ≤ lead.count '\n' + 1 := by
    refine Nat.le_of_not_lt fun hmore => ?_
    have hsize := Search.partitionPointOf_le s.lineStarts (· ≤ n)
    have hj : lead.count '\n' + 1 < s.lineStarts.size := by omega
    have hreached := (s.lt_lineSearch_iff n hj).1 hmore
    -- the next line of the table starts in the rest of the text, behind the offset
    have hnext := Array.getElem?_eq_getElem hj
    rw [← Array.getElem?_toList, lineStarts_append h, List.getElem?_append_right] at hnext
    · have := hlt _ (List.mem_of_getElem? hnext)
      omega
    · exact Nat.le_of_eq (by rw [List.length_cons, length_lineBreaks])
  unfold lineIndex
  omega

/-- What is looked up for an offset in the last line of the part before it. -/
theorem position_eq (h : s.place.text = lead ++ rest) (hle : Text.width lead ≤ n)
    (hlt : ∀ k ∈ lineBreaks (Text.width lead) rest, n < k) (hn : n ≤ s.size) :
    s.position n = .ok ⟨lead.count '\n' + 1,
      (match Text.slice? s.place.text (Text.width (Text.earlierLines lead)) n with
        | some part => part.length
        | none => n - Text.width (Text.earlierLines lead)) + 1⟩ := by
  obtain ⟨hi, hstart⟩ := Array.getElem?_eq_some_iff.1 (getElem?_lineStarts h)
  unfold position
  simp only [Nat.min_eq_left hn, lineIndex_eq h hle hlt, fetch_of_lt hi, hstart]
  exact Position.make_of_pos (Nat.le_add_left ..) (Nat.le_add_left ..)

/-- **At a character boundary, looking up is counting.** -/
theorem position_width (h : s.place.text = lead ++ rest) :
    s.position (Text.width lead) = .ok (.behind lead) := by
  have hcut := Text.earlierLines_append_lastLine lead
  have hslice : Text.slice? s.place.text (Text.width (Text.earlierLines lead)) (Text.width lead) =
      some (Text.lastLine lead) := by
    refine Text.slice?_eq_some_iff.2 ⟨Text.earlierLines lead, rest, ?_, rfl, ?_⟩
    · rw [hcut, h]
    · rw [← Text.width_append, hcut]
  have hn : Text.width lead ≤ s.size := by
    rw [size, h, Text.width_append]
    exact Nat.le_add_right _ _
  rw [position_eq h (Nat.le_refl _) (fun k hk => lt_of_mem_lineBreaks hk) hn, hslice]
  rfl

/-- Offsets behind the text count as its end. -/
theorem position_min (s : TextSource) (n : Nat) : s.position (min n s.size) = s.position n := by
  unfold position
  rw [Nat.min_assoc, Nat.min_self]

/-- **Positions at character boundaries are ordered as the offsets are.** -/
theorem position_lt_iff {m : Nat} {p q : Position} (hm : Text.IsBoundary s.place.text m)
    (hn : Text.IsBoundary s.place.text n) (hp : s.position m = .ok p) (hq : s.position n = .ok q) :
    p < q ↔ m < n := by
  obtain ⟨a, b, htext, rfl⟩ := Text.isBoundary_iff.1 hm
  obtain ⟨a', b', htext', rfl⟩ := Text.isBoundary_iff.1 hn
  rw [position_width htext] at hp
  rw [position_width htext'] at hq
  cases hp
  cases hq
  have hsame : a ++ b = a' ++ b' := htext.symm.trans htext'
  refine ⟨fun hlt => Nat.lt_of_not_le fun hle => ?_, Position.behind_lt hsame⟩
  rcases Nat.eq_or_lt_of_le hle with heq | hback
  · obtain ⟨rfl, _⟩ := Text.append_inj_of_width hsame heq.symm
    exact Position.lt_irrefl _ hlt
  · exact Position.lt_irrefl _ (Position.lt_trans hlt (Position.behind_lt hsame.symm hback))

/-- **Positions are those of the text.** The line and the column at the boundary behind a leading
part of the text are those counted in that part, and offsets behind the text have the position of
its end. In other words, the text starts at line 1 and column 1, and every character leads to the
next column or, if it is a line break, to the first column of the next line. So the positions at the
boundaries of a text are ordered as the offsets are, and no two of them are the same. -/
theorem position_counts (s : TextSource) :
    (∀ lead rest, s.place.text = lead ++ rest →
      s.position (Text.width lead) = .ok (.behind lead)) ∧
    (∀ offset, s.size ≤ offset → s.position offset = s.position s.size) ∧
    s.position 0 = .ok ⟨1, 1⟩ ∧
    (∀ lead c rest p, s.place.text = lead ++ c :: rest → s.position (Text.width lead) = .ok p →
      s.position (Text.width lead + c.utf8Size) = .ok (p.step c)) ∧
    ∀ m n p q, Text.IsBoundary s.place.text m → Text.IsBoundary s.place.text n →
      s.position m = .ok p → s.position n = .ok q → (p < q ↔ m < n) ∧ (p = q → m = n) := by
  refine ⟨fun lead rest h => position_width h, ?_, ?_, ?_, ?_⟩
  · intro offset h
    rw [← s.position_min offset, Nat.min_eq_right h]
  · have hstart := position_width (List.nil_append s.place.text).symm
    exact hstart
  · intro lead c rest p h hp
    have hover : s.place.text = (lead ++ [c]) ++ rest := by rw [h, List.append_cons]
    have hposition := position_width hover
    rw [position_width h] at hp
    cases hp
    rw [Text.width_append, Text.width_cons, Text.width_nil, Nat.add_zero,
      Position.behind_concat] at hposition
    exact hposition
  · intro m n p q hm hn hp hq
    refine ⟨position_lt_iff hm hn hp hq, ?_⟩
    rintro rfl
    have hless := (position_lt_iff hm hn hp hq).not.1 p.lt_irrefl
    have hmore := (position_lt_iff hn hm hq hp).not.1 p.lt_irrefl
    omega

/-- Wide characters, an empty line, and offsets at the start of a line and behind the text. -/
theorem position_counts_lines :
    let s := ofString "ab\nää\n\nc"
    s.position 3 = .ok ⟨2, 1⟩ ∧ s.position 5 = .ok ⟨2, 2⟩ ∧ s.position 8 = .ok ⟨3, 1⟩ ∧
      s.position 100 = .ok ⟨4, 2⟩ := by
  intro s
  obtain ⟨hcounts, hbehind, _⟩ := position_counts s
  refine ⟨hcounts ['a', 'b', '\n'] ['ä', 'ä', '\n', '\n', 'c'] rfl,
    hcounts ['a', 'b', '\n', 'ä'] ['ä', '\n', '\n', 'c'] rfl,
    hcounts ['a', 'b', '\n', 'ä', 'ä', '\n'] ['\n', 'c'] rfl, ?_⟩
  have hsize : s.size = 10 := by decide
  rw [hbehind 100 (by rw [hsize]; decide), hsize]
  exact hcounts ['a', 'b', '\n', 'ä', 'ä', '\n', '\n', 'c'] [] rfl

end TextSource

end Munch
