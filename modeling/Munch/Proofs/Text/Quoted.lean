import Munch.Proofs.Json.Reading
import Munch.Text.Escape

/-!
# Escaped text between quotes is read back

A reader of quoted text stops at the first quote that is not escaped. On the way it undoes the
escapes, of which the code points in braces have any number of digits.

* `decimal_append_inj` — a number ends where its digits end.
* `readQuoted?` — the reader. `Reads written plain` says that it takes `written` for `plain`,
  whatever follows.
* `reads_escapedChar`, `reads_escaped` — it takes an escaped character or text for the original,
  and `readQuoted?_of_reads` — so it stops at the quote that closes it.
-/

namespace Munch.Text

/-! ## Digits -/

theorem exists_of_mem_toDigits {b n : Nat} {c : Char} (hb : 1 < b) (h : c ∈ Nat.toDigits b n) :
    ∃ d, d < b ∧ c = Nat.digitChar d := by
  induction n using Nat.strongRecOn with
  | ind n ih =>
    by_cases hn : n < b
    · rw [Nat.toDigits_of_lt_base hn, List.mem_singleton] at h
      exact ⟨n, hn, h⟩
    · rw [Nat.toDigits_of_base_le hb (Nat.le_of_not_lt hn), List.mem_append,
        List.mem_singleton] at h
      rcases h with h | h
      · exact ih (n / b) (Nat.div_lt_self (by omega) hb) h
      · exact ⟨n % b, Nat.mod_lt _ (by omega), h⟩

/-- Digits are letters or numerals. -/
theorem isAlphanum_of_mem_toDigits {b n : Nat} {c : Char} (hb : 1 < b) (hle : b ≤ 16)
    (h : c ∈ Nat.toDigits b n) : c.isAlphanum = true := by
  obtain ⟨d, hd, rfl⟩ := exists_of_mem_toDigits hb h
  have hall : ∀ d, d < 16 → (Nat.digitChar d).isAlphanum = true := by decide
  exact hall d (by omega)

theorem decimal_injective {m n : Nat} (h : decimal m = decimal n) : m = n := by
  have hvalue := congrArg (fun digits => Nat.ofDigitChars 10 digits 0) h
  simpa only [decimal, Nat.ofDigitChars_ten_toDigits] using hvalue

/-- Two texts agree up to the first place where `c` stands. -/
theorem append_cons_inj {a b x y : List Char} {c : Char} (ha : c ∉ a) (hb : c ∉ b)
    (h : a ++ c :: x = b ++ c :: y) : a = b ∧ x = y := by
  induction a generalizing b with
  | nil =>
    cases b with
    | nil => simpa using h
    | cons d b =>
      have hd : c = d := (List.cons.inj h).1
      exact absurd (by simp [hd]) hb
  | cons e a ih =>
    cases b with
    | nil =>
      have he : e = c := (List.cons.inj h).1
      exact absurd (by simp [he]) ha
    | cons d b =>
      obtain ⟨rfl, hrest⟩ := List.cons.inj h
      obtain ⟨rfl, hxy⟩ := ih (fun hc => ha (List.mem_cons_of_mem _ hc))
        (fun hc => hb (List.mem_cons_of_mem _ hc)) hrest
      exact ⟨rfl, hxy⟩

/-- A number ends where its digits end. -/
theorem decimal_append_inj {m n : Nat} {c : Char} {x y : List Char} (hc : c.isAlphanum = false)
    (h : decimal m ++ c :: x = decimal n ++ c :: y) : m = n ∧ x = y := by
  have hnot : ∀ k, c ∉ decimal k := by
    intro k hmem
    have halnum := isAlphanum_of_mem_toDigits (by decide) (by decide) hmem
    simp [hc] at halnum
  obtain ⟨hdigits, hxy⟩ := append_cons_inj (hnot m) (hnot n) h
  exact ⟨decimal_injective hdigits, hxy⟩

/-! ## The reader -/

/-- What a backslash and a letter stand for. -/
def letterMeaning (c : Char) : Char :=
  if c = 't' then '\t' else if c = 'r' then '\r' else if c = 'n' then '\n' else c

/-- Reads a quoted text: the text up to the closing quote, and what follows the quote. Inside the
braces of a code point, the first argument is its value so far. -/
def readQuoted? : Option Nat → List Char → Option (List Char × List Char)
  | none, '\x22' :: rest => some ([], rest)
  | none, '\\' :: 'u' :: '\x7b' :: rest => readQuoted? (some 0) rest
  | none, '\\' :: c :: rest => (readQuoted? none rest).map fun r => (letterMeaning c :: r.1, r.2)
  | none, c :: rest => (readQuoted? none rest).map fun r => (c :: r.1, r.2)
  | some code, '\x7d' :: rest => (readQuoted? none rest).map fun r => (Char.ofNat code :: r.1, r.2)
  | some code, c :: rest =>
    (Json.hexDigit? c).bind fun d => readQuoted? (some (16 * code + d)) rest
  | _, [] => none

/-- The reader takes `written` for `plain`, whatever follows. -/
def Reads (written plain : List Char) : Prop :=
  ∀ rest, readQuoted? none (written ++ rest) =
    (readQuoted? none rest).map fun r => (plain ++ r.1, r.2)

variable {a b x y : List Char} {c : Char}

theorem reads_nil : Reads [] [] := by
  intro rest
  simp

theorem Reads.append (ha : Reads a x) (hb : Reads b y) : Reads (a ++ b) (x ++ y) := by
  intro rest
  rw [List.append_assoc, ha, hb, Option.map_map]
  simp [Function.comp_def]

/-- What is neither a quote nor a backslash stands for itself. -/
theorem reads_singleton (hquote : c ≠ '\x22') (hslash : c ≠ '\\') : Reads [c] [c] := by
  intro rest
  rw [List.singleton_append, readQuoted?]
  · rfl
  · exact hquote
  · intro tail hc
    exact absurd hc hslash
  · intro d tail hc
    exact absurd hc hslash

theorem reads_of_forall_mem (h : ∀ c ∈ a, c ≠ '\x22' ∧ c ≠ '\\') : Reads a a := by
  induction a with
  | nil => exact reads_nil
  | cons c a ih =>
    obtain ⟨hquote, hslash⟩ := h c (by simp)
    exact (reads_singleton hquote hslash).append (ih fun d hd => h d (List.mem_cons_of_mem _ hd))

theorem reads_decimal (n : Nat) : Reads (decimal n) (decimal n) := by
  apply reads_of_forall_mem
  intro c hc
  have halnum := isAlphanum_of_mem_toDigits (by decide) (by decide) hc
  constructor
  · rintro rfl
    exact absurd halnum (by decide)
  · rintro rfl
    exact absurd halnum (by decide)

/-- Behind a quoted text the reader stops. -/
theorem readQuoted?_of_reads (h : Reads a x) (rest : List Char) :
    readQuoted? none (a ++ '\x22' :: rest) = some (x, rest) := by
  rw [h]
  simp [readQuoted?]

/-! ## Escaped characters -/

theorem readQuoted?_digitChar {d : Nat} (hd : d < 16) (code : Nat) (rest : List Char) :
    readQuoted? (some code) (Nat.digitChar d :: rest) =
      readQuoted? (some (16 * code + d)) rest := by
  have hbrace : ∀ d, d < 16 → Nat.digitChar d ≠ '\x7d' := by decide
  rw [readQuoted?, Json.hexDigit?_digitChar hd, Option.bind_some]
  exact hbrace d hd

/-- Inside the braces, the digits of a number amount to the number. -/
theorem readQuoted?_toDigits (n : Nat) (rest : List Char) :
    readQuoted? (some 0) (Nat.toDigits 16 n ++ rest) = readQuoted? (some n) rest := by
  induction n using Nat.strongRecOn generalizing rest with
  | ind n ih =>
    by_cases hn : n < 16
    · rw [Nat.toDigits_of_lt_base hn, List.singleton_append, readQuoted?_digitChar hn]
      simp
    · have hdiv : n / 16 < n := by omega
      have hmod : n % 16 < 16 := by omega
      rw [Nat.toDigits_of_base_le (by decide) (Nat.le_of_not_lt hn), List.append_assoc, ih _ hdiv,
        List.singleton_append, readQuoted?_digitChar hmod, Nat.div_add_mod]

theorem reads_codePointEscape (c : Char) : Reads (codePointEscape c) [c] := by
  intro rest
  calc readQuoted? none (codePointEscape c ++ rest)
      = readQuoted? (some 0) (Nat.toDigits 16 c.toNat ++ ('\x7d' :: rest)) := by
        simp [codePointEscape, readQuoted?]
    _ = readQuoted? (some c.toNat) ('\x7d' :: rest) := readQuoted?_toDigits _ _
    _ = (readQuoted? none rest).map fun r => (c :: r.1, r.2) := by
        rw [readQuoted?, Char.ofNat_toNat]

/-- A backslash and a letter other than `u` are read at once. -/
theorem reads_letter (hc : c ≠ 'u') : Reads ['\\', c] [letterMeaning c] := by
  intro rest
  rw [List.cons_append, List.singleton_append, readQuoted?]
  · rfl
  · intro tail hu
    exact absurd hu hc

theorem letterMeaning_of_letterEscape? {letter : Char} (h : letterEscape? c = some letter) :
    letter ≠ 'u' ∧ letterMeaning letter = c := by
  unfold letterEscape? at h
  repeat' split at h
  all_goals cases h
  all_goals subst c
  all_goals decide

theorem reads_escapedChar (c : Char) : Reads (escapedChar c) [c] := by
  unfold escapedChar
  split
  · rename_i letter hletter
    obtain ⟨hu, hmeaning⟩ := letterMeaning_of_letterEscape? hletter
    rw [← hmeaning]
    exact reads_letter hu
  rename_i hnone
  split
  · rename_i hquote
    subst hquote
    exact reads_letter (by decide)
  rename_i hquote
  split
  · -- a backslash has a letter, so it is not among the characters left here
    apply reads_singleton hquote
    rintro rfl
    exact absurd hnone (by decide)
  · exact reads_codePointEscape c

theorem reads_escaped (text : List Char) : Reads (escaped text) text := by
  induction text with
  | nil => exact reads_nil
  | cons c text ih => exact (reads_escapedChar c).append ih

end Munch.Text
