/-!
# Texts measured in bytes

Offsets into a text count the bytes of its UTF-8 form. An offset is a character boundary if it is
the width of some leading part of the text.

* `width` is the number of bytes of a text.
* `splitAt?` cuts a text at an offset, `slice?` takes the part between two offsets; both fail at
  an offset that is no boundary. `splitAt?_eq_some_iff` says so exactly.
-/

namespace Munch.Text

/-- The number of bytes of a text. -/
def width : List Char → Nat
  | [] => 0
  | c :: rest => c.utf8Size + width rest

/-- The parts before and behind an offset; `none` if it is no character boundary. -/
def splitAt? : List Char → Nat → Option (List Char × List Char)
  | text, 0 => some ([], text)
  | [], _ + 1 => none
  | c :: rest, n + 1 =>
    if c.utf8Size ≤ n + 1 then
      (splitAt? rest (n + 1 - c.utf8Size)).map fun (before, behind) => (c :: before, behind)
    else none

/-- The part between two offsets; `none` unless both are boundaries and in order. -/
def slice? (text : List Char) (start stop : Nat) : Option (List Char) :=
  if start ≤ stop then do
    let (_, rest) ← splitAt? text start
    let (part, _) ← splitAt? rest (stop - start)
    return part
  else none

@[simp]
theorem width_nil : width [] = 0 := rfl

@[simp]
theorem width_cons (c : Char) (rest : List Char) : width (c :: rest) = c.utf8Size + width rest :=
  rfl

@[simp]
theorem width_append (a b : List Char) : width (a ++ b) = width a + width b := by
  induction a with
  | nil => simp
  | cons c rest ih => simp [ih, Nat.add_assoc]

@[simp]
theorem width_reverse (a : List Char) : width a.reverse = width a := by
  induction a with
  | nil => rfl
  | cons c rest ih => simp [ih, Nat.add_comm]

/-- Every character takes room. -/
theorem width_eq_zero {text : List Char} : width text = 0 ↔ text = [] := by
  cases text with
  | nil => simp
  | cons c rest => have := c.utf8Size_pos; simp; omega

/-- Cutting at the width of a leading part gives that part. -/
theorem splitAt?_width_append (a b : List Char) : splitAt? (a ++ b) (width a) = some (a, b) := by
  induction a with
  | nil => cases b <;> rfl
  | cons c rest ih =>
    have hc := c.utf8Size_pos
    obtain ⟨n, hn⟩ : ∃ n, c.utf8Size + width rest = n + 1 := ⟨c.utf8Size + width rest - 1, by omega⟩
    rw [width_cons, hn, List.cons_append, splitAt?, if_pos (by omega), ← hn,
      Nat.add_sub_cancel_left, ih]
    rfl

/-- A text is cut at an offset exactly into parts of which the first has that width. -/
theorem splitAt?_eq_some_iff {text a b : List Char} {n : Nat} :
    splitAt? text n = some (a, b) ↔ text = a ++ b ∧ width a = n := by
  constructor
  · intro h
    fun_induction splitAt? text n generalizing a b with
    | case1 text => cases h; simp
    | case2 => cases h
    | case3 c rest n hle ih =>
      obtain ⟨⟨a', b'⟩, h', heq⟩ := Option.map_eq_some_iff.1 h
      cases heq
      obtain ⟨rfl, hw⟩ := ih h'
      exact ⟨rfl, by simp; omega⟩
    | case4 => cases h
  · rintro ⟨rfl, rfl⟩
    exact splitAt?_width_append a b

end Munch.Text
