import Mathlib.Order.Bounds.Defs
import Munch.Proofs.Source.Lines

/-!
# Reading and seeking in a text

Whatever is asked of a text, and in whatever order, its cursor stands between two characters and the
text is read from there on, character by character.

* `SourceRequest` — what may be asked of a text. `TextSource.answer` carries out one request and
  `TextSource.serve` a list of them, observing the cursor behind each.
* `Text.isBoundary_iff_isValid` — the boundaries of a text are the valid positions of its UTF-8
  form.
* `TextSource.isGreatest_seek` — seeking arrives at the greatest boundary that is not behind the
  target. `TextSource.isLeast_read` — reading arrives at the next boundary.
* `TextSource.Faithful` — what a caller may rely on at one cursor. `TextSource.text_serve` —
  requests do not change the text, and `TextSource.isBoundary_of_mem_serve` — the cursors they
  report are boundaries of it.
* `TextSource.serve_faithful` — so a text is faithful after all requests, and every cursor that was
  ever reported can be restored.
-/

namespace Munch

/-- What may be asked of a text that is being read. -/
inductive SourceRequest where
  | readNext
  | setCursor (cursor : Nat)
  | setOffset (offset : Nat)
deriving DecidableEq, Repr

namespace Text

/-- **The boundaries of a text are the valid positions of its UTF-8 form.** -/
theorem isBoundary_iff_isValid {input : String} {n : Nat} :
    IsBoundary input.toList n ↔ String.Pos.Raw.IsValid input ⟨n⟩ := by
  rw [isBoundary_iff, String.Pos.Raw.isValid_iff_exists_append]
  constructor
  · rintro ⟨a, b, htext, rfl⟩
    refine ⟨String.ofList a, String.ofList b, ?_, ?_⟩
    · rw [← String.ofList_append, ← htext, String.ofList_toList]
    · have hsize := width_toList (String.ofList a)
      rw [String.toList_ofList] at hsize
      exact String.Pos.Raw.ext hsize
  · rintro ⟨a, b, rfl, hn⟩
    refine ⟨a.toList, b.toList, String.toList_append, ?_⟩
    rw [width_toList]
    exact (congrArg String.Pos.Raw.byteIdx hn).symm

end Text

namespace TextSource

/-- Carries out one request. Only reading has an answer: the next character, if there is one. -/
def answer (s : TextSource) : SourceRequest → Option Char × TextSource
  | .readNext =>
    match s.read with
    | none => (none, s)
    | some (c, s') => (some c, s')
  | .setCursor cursor => (none, s.seek cursor)
  | .setOffset offset => (none, s.seek offset)

/-- Carries out requests in order. Every answer is observed together with the cursor behind it. -/
def serve : List SourceRequest → TextSource → List (Option Char × Nat) × TextSource
  | [], s => ([], s)
  | request :: rest, s =>
    let (answer, s) := s.answer request
    let (later, final) := serve rest s
    ((answer, s.place.offset) :: later, final)

variable {s s' : TextSource} {c : Char}

/-! ## One request -/

theorem answer_readNext_of_nil (h : s.place.behind = []) : s.answer .readNext = (none, s) := by
  unfold answer
  simp only [read_nil h]

theorem answer_readNext_of_read (h : s.read = some (c, s')) :
    s.answer .readNext = (some c, s') := by
  unfold answer
  simp only [h]

theorem text_answer (s : TextSource) (request : SourceRequest) :
    (s.answer request).2.place.text = s.place.text := by
  cases request with
  | readNext =>
    cases hbehind : s.place.behind with
    | nil => rw [answer_readNext_of_nil hbehind]
    | cons c rest =>
      obtain ⟨s', hread, htext, _⟩ := read_cons hbehind
      rw [answer_readNext_of_read hread, htext]
  | setCursor cursor => exact text_seek s cursor
  | setOffset offset => exact text_seek s offset

/-- **Seeking arrives at the greatest boundary that is neither behind the target nor behind the
text.** -/
theorem isGreatest_seek (s : TextSource) (target : Nat) :
    IsGreatest {k | Text.IsBoundary s.place.text k ∧ k ≤ min target s.size}
      (s.seek target).place.offset := by
  have hboundary := (s.seek target).place.isBoundary
  have hsize := (s.seek target).place.offset_le_width
  rw [text_seek] at hboundary hsize
  refine ⟨⟨hboundary, Nat.le_min.2 ⟨Place.offset_seek_le s.place target, hsize⟩⟩, ?_⟩
  rintro k ⟨hk, hle⟩
  obtain ⟨q, hq, rfl⟩ := Place.exists_of_isBoundary hk
  exact Place.offset_le_seek hq (Nat.le_trans hle (Nat.min_le_left _ _))

/-- **Reading arrives at the next boundary**, behind the character that was read. -/
theorem isLeast_read (h : s.read = some (c, s')) :
    Text.slice? s.place.text s.place.offset s'.place.offset = some [c] ∧
      IsLeast {k | Text.IsBoundary s.place.text k ∧ s.place.offset < k} s'.place.offset := by
  have hbehind : s.place.behind = [c] ++ s'.place.behind := read_eq_some h
  obtain ⟨s₁, hread, htext, _, hoffset⟩ := read_cons hbehind
  rw [h] at hread
  cases hread
  have hslice := slice?_behind hbehind
  have hwidth : Text.width [c] = c.utf8Size := by simp
  rw [hwidth, ← hoffset] at hslice
  have hpos := c.utf8Size_pos
  refine ⟨hslice, ⟨(Text.isBoundary_of_slice? hslice).2, by omega⟩, ?_⟩
  rintro k ⟨hk, hlt⟩
  obtain ⟨a, b, hcut, rfl⟩ := Text.isBoundary_iff.1 hk
  have hplace : s.place.before.reverse ++ s.place.behind = a ++ b := hcut
  have hwide : Text.width s.place.before.reverse < Text.width a := by
    rw [Text.width_reverse, ← s.place.offset_eq]
    exact hlt
  -- what lies before a later boundary goes on with the character that was read
  obtain ⟨d, more, rfl⟩ := Text.exists_append_of_width_lt hplace hwide
  rw [hbehind, List.append_assoc, List.append_cancel_left_eq] at hplace
  obtain ⟨rfl, _⟩ := List.cons.inj hplace
  rw [hoffset, Text.width_append, Text.width_cons, Text.width_reverse, ← s.place.offset_eq]
  omega

/-! ## Reading on -/

/-- **Reading on delivers what lies behind the cursor**, in order, and then nothing. -/
theorem serve_readNext (n : Nat) (s : TextSource) :
    (serve (List.replicate n .readNext) s).1.map (·.1) =
      (List.range n).map fun i => s.place.behind[i]? := by
  induction n generalizing s with
  | zero => rfl
  | succ n ih =>
    have hrange : (List.range (n + 1)).map (fun i => s.place.behind[i]?) =
        s.place.behind[0]? :: (List.range n).map fun i => s.place.behind[i + 1]? := by
      rw [List.range_succ_eq_map, List.map_cons, List.map_map]
      rfl
    rw [List.replicate_succ, serve, hrange, List.map_cons, ih]
    cases hbehind : s.place.behind with
    | nil =>
      rw [answer_readNext_of_nil hbehind]
      simp [hbehind]
    | cons c rest =>
      obtain ⟨s', hread, _, hrest, _⟩ := read_cons hbehind
      rw [answer_readNext_of_read hread]
      simp [hrest]

/-! ## All requests -/

theorem text_serve (requests : List SourceRequest) (s : TextSource) :
    (serve requests s).2.place.text = s.place.text := by
  induction requests generalizing s with
  | nil => rfl
  | cons request rest ih =>
    rw [serve]
    exact (ih _).trans (text_answer s request)

/-- Every cursor that is reported is a boundary of the text. -/
theorem isBoundary_of_mem_serve {requests : List SourceRequest} {o : Option Char × Nat}
    (h : o ∈ (serve requests s).1) : Text.IsBoundary s.place.text o.2 := by
  induction requests generalizing s with
  | nil => cases h
  | cons request rest ih =>
    have htext := text_answer s request
    rw [serve] at h
    rcases List.mem_cons.1 h with rfl | hlater
    · rw [← htext]
      exact (s.answer request).2.place.isBoundary
    · rw [← htext]
      exact ih hlater

/-- What a caller may rely on where a text is read. -/
structure Faithful (input : String) (s : TextSource) : Prop where
  boundary : String.Pos.Raw.IsValid input ⟨s.place.offset⟩
  offset_le : s.place.offset ≤ input.utf8ByteSize
  /-- A cursor is moved to the last boundary that is neither behind the target nor behind the
  text. -/
  moved : ∀ target,
    IsGreatest {k | String.Pos.Raw.IsValid input ⟨k⟩ ∧ k ≤ min target input.utf8ByteSize}
        (s.answer (.setCursor target)).2.place.offset ∧
      s.answer (.setOffset target) = s.answer (.setCursor target)
  /-- At the end of the text there is nothing to read, and nothing moves. -/
  ended : s.place.offset = input.utf8ByteSize → s.answer .readNext = (none, s)
  /-- Before it, the character at the cursor is read, and the cursor moves to the next boundary. -/
  next : s.place.offset < input.utf8ByteSize → ∃ c s', s.answer .readNext = (some c, s') ∧
    Text.slice? input.toList s.place.offset s'.place.offset = some [c] ∧
    IsLeast {k | String.Pos.Raw.IsValid input ⟨k⟩ ∧ s.place.offset < k} s'.place.offset
  rest : Text.slice? input.toList s.place.offset input.utf8ByteSize = some s.rest.toList
  /-- Reading on delivers the rest of the text in order, and then nothing. -/
  delivers : ∀ n, (serve (List.replicate n .readNext) s).1.map (·.1) =
    (List.range n).map fun i => s.rest.toList[i]?

/-- **A source over a text is faithful wherever it stands.** -/
theorem faithful_of_text {input : String} (h : s.place.text = input.toList) :
    s.Faithful input := by
  have hvalid : ∀ k, String.Pos.Raw.IsValid input ⟨k⟩ ↔ Text.IsBoundary s.place.text k := by
    intro k
    rw [h]
    exact Text.isBoundary_iff_isValid.symm
  have hsize : input.utf8ByteSize = s.size := by rw [size, h, Text.width_toList]
  have hrest : s.rest.toList = s.place.behind := String.toList_ofList
  have hend : s.place.offset + Text.width s.place.behind = s.size := by
    rw [size, Place.text, Text.width_append, Text.width_reverse, s.place.offset_eq]
  constructor
  case boundary => exact (hvalid _).2 s.place.isBoundary
  case offset_le => omega
  case moved =>
    intro target
    simp only [hvalid, hsize]
    exact ⟨s.isGreatest_seek target, rfl⟩
  case ended =>
    intro hoffset
    have hnil : s.place.behind = [] := Text.width_eq_zero.1 (by omega)
    exact answer_readNext_of_nil hnil
  case next =>
    intro hoffset
    cases hbehind : s.place.behind with
    | nil =>
      rw [hbehind, Text.width_nil] at hend
      omega
    | cons c rest =>
      obtain ⟨s', hread, _⟩ := read_cons hbehind
      simp only [hvalid, ← h]
      exact ⟨c, s', answer_readNext_of_read hread, isLeast_read hread⟩
  case rest =>
    rw [hrest, hsize, ← hend, ← h]
    exact slice?_behind (List.append_nil _).symm
  case delivers =>
    intro n
    rw [hrest]
    exact serve_readNext n s

/-- **The cursor of a text is always between two characters, and the text is read exactly.**
Whatever has been asked of a fresh source over a text, the source is faithful to the text: its
cursor is a boundary of the text, moving it leads to the greatest boundary that is admitted, and
reading delivers the rest of the text character by character. The cursors reported on the way are
boundaries, so that moving to one of them restores it. -/
theorem serve_faithful (input : String) (requests : List SourceRequest) :
    ∃ seen s, serve requests (ofString input) = (seen, s) ∧ s.Faithful input ∧
      ∀ o ∈ seen, String.Pos.Raw.IsValid input ⟨o.2⟩ ∧
        (s.answer (.setCursor o.2)).2.place.offset = o.2 := by
  have htext : (serve requests (ofString input)).2.place.text = input.toList :=
    text_serve requests (ofString input)
  refine ⟨_, _, rfl, faithful_of_text htext, ?_⟩
  intro o ho
  have hboundary : Text.IsBoundary input.toList o.2 := isBoundary_of_mem_serve ho
  refine ⟨Text.isBoundary_iff_isValid.1 hboundary, ?_⟩
  rw [← htext] at hboundary
  exact offset_seek_of_isBoundary hboundary

end TextSource

end Munch
