import Munch.Json.Value

/-!
# Reading back what was written

The text of a value is read as the value.

A text has no separators: a token ends where the next one starts, and only the end of the text ends
a number. So the lexer may be one token behind the parser. `Reader.settled?` is the state of the
parser once the lexer has caught up.

* `Reader.reads_token` — reading the text of a token is parsing the token, if the parser takes it.
  This needs the parser: behind a number it takes nothing that a digit starts.
* `Reader.reads_tokens` — the same for a list of tokens.
* `ParseState.takes_tokens` — parsing the tokens of a value gives the value.
* `Value.parse?_text` — so does reading its text.
-/

namespace Munch.Json

/-! ## Digits -/

theorem digit?_digitChar {d : Nat} (h : d < 10) : digit? (Nat.digitChar d) = some d := by
  have hall : ∀ d, d < 10 → digit? (Nat.digitChar d) = some d := by decide
  exact hall d h

theorem hexDigit?_digitChar {d : Nat} (h : d < 16) : hexDigit? (Nat.digitChar d) = some d := by
  have hall : ∀ d, d < 16 → hexDigit? (Nat.digitChar d) = some d := by decide
  exact hall d h

/-! ## Runs of the two machines -/

namespace ParseState

variable {p q r : ParseState}

/-- Reading these tokens leads from one state to another. -/
def Takes (p : ParseState) (tokens : List Token) (q : ParseState) : Prop :=
  tokens.foldlM step p = some q

theorem Takes.cons {t : Token} {tokens : List Token} (h : p.step t = some q)
    (hrest : q.Takes tokens r) : p.Takes (t :: tokens) r := by
  simpa [Takes, h] using hrest

theorem Takes.append {a b : List Token} (ha : p.Takes a q) (hb : q.Takes b r) :
    p.Takes (a ++ b) r := by
  have hfirst : a.foldlM step p = some q := ha
  simpa [Takes, hfirst] using hb

end ParseState

namespace Reader

/-- The state of the parser if the text ends here. -/
def settled? (r : Reader) : Option ParseState := do
  let last ← r.lexer.finish
  last.foldlM ParseState.step r.parser

theorem finish_eq (r : Reader) : r.finish = r.settled?.bind ParseState.finish := by
  unfold finish settled?
  cases r.lexer.finish <;> rfl

/-- Reads characters one by one. -/
def run (r : Reader) (text : List Char) : Option Reader := (text.map some).foldlM step r

@[simp]
theorem run_nil (r : Reader) : r.run [] = some r := rfl

@[simp]
theorem run_cons (r : Reader) (c : Char) (text : List Char) :
    r.run (c :: text) = (r.step (some c)).bind (·.run text) := by
  simp [run]

theorem run_append (r : Reader) (a b : List Char) :
    r.run (a ++ b) = (r.run a).bind (·.run b) := by
  simp [run]

variable {l l' : LexState} {p p' : ParseState} {c : Char}

/-- A character that completes no token does not concern the parser. -/
theorem step_of_silent (h : l.step (some c) = some (l', [])) :
    step ⟨l, p⟩ (some c) = some ⟨l', p⟩ := by
  simp [step, h]

theorem step_of_token {t : Token} (h : l.step (some c) = some (l', [t]))
    (hp : p.step t = some p') : step ⟨l, p⟩ (some c) = some ⟨l', p'⟩ := by
  simp [step, h, hp]

/-! ## Strings -/

/-- The lexer inside a string of which these characters have been read, newest first. -/
abbrev inString (chars : List Char) (p : ParseState) : Reader := ⟨.string ⟨some chars, none⟩, p⟩

theorem run_letterEscape {e : Char} (hu : e ≠ 'u') (he : unescape? e = some c)
    (chars : List Char) : (inString chars p).run ['\\', e] = some (inString (c :: chars) p) := by
  simp [step, LexState.step, StringPart.push, hu, he]

theorem run_unitEscape (hlow : c.toNat < 0x20) (chars : List Char) :
    (inString chars p).run
        ['\\', 'u', '0', '0', Nat.digitChar (c.toNat / 16), Nat.digitChar (c.toNat % 16)] =
      some (inString (c :: chars) p) := by
  have hzero : hexDigit? '0' = some 0 := rfl
  have hhigh := hexDigit?_digitChar (d := c.toNat / 16) (by omega)
  have hlast := hexDigit?_digitChar (d := c.toNat % 16) (by omega)
  have hunit : c.toNat / 16 * 16 + c.toNat % 16 = c.toNat := by omega
  have hhalf : ¬(0xd800 ≤ c.toNat ∧ c.toNat < 0xdc00) := by omega
  have hother : ¬(0xdc00 ≤ c.toNat ∧ c.toNat < 0xe000) := by omega
  simp [step, LexState.step, StringPart.pushUnit, hzero, hhigh, hlast, hunit, hhalf, hother]

theorem run_plain (hquote : c ≠ '\x22') (hslash : c ≠ '\\') (hlow : ¬c.toNat < 0x20)
    (chars : List Char) : (inString chars p).run [c] = some (inString (c :: chars) p) := by
  simp [step, LexState.step, StringPart.push, hquote, hslash, hlow]

/-- The escape of a character is read as the character. -/
theorem run_escapeChar (c : Char) (chars : List Char) :
    (inString chars p).run (escapeChar c) = some (inString (c :: chars) p) := by
  fun_cases escapeChar c with
  | case8 _ _ _ _ _ _ _ hlow => exact run_unitEscape hlow chars
  | case9 hquote hslash _ _ _ _ _ hlow => exact run_plain hquote hslash hlow chars
  | _ =>
    subst c
    exact run_letterEscape (by decide) (by decide) chars

theorem run_escapeChars (text chars : List Char) :
    (inString chars p).run (text.flatMap escapeChar) =
      some (inString (text.reverse ++ chars) p) := by
  induction text generalizing chars with
  | nil => rfl
  | cons c text ih => simp [run_append, run_escapeChar, ih]

theorem run_stringText (s : String) (hp : p.step (.string (some s)) = some p') :
    run ⟨.between, p⟩ (stringText s) = some ⟨.between, p'⟩ := by
  have hopen : step ⟨.between, p⟩ (some '\x22') = some (inString [] p) := step_of_silent rfl
  have hclose : step (inString s.toList.reverse p) (some '\x22') = some ⟨.between, p'⟩ := by
    refine step_of_token (t := .string (some s)) ?_ hp
    simp [LexState.step, StringPart.finish]
  simp [stringText, run_append, hopen, run_escapeChars, hclose]

/-! ## Numbers -/

theorem start_digitChar {d : Nat} (hpos : 0 < d) (h : d < 10) :
    LexState.start (Nat.digitChar d) = some (.number .integer (some d), []) := by
  have hall : ∀ d, d < 10 → 0 < d →
      LexState.start (Nat.digitChar d) = some (.number .integer (some d), []) := by decide
  exact hall d h hpos

theorem numberStep?_digitChar {d : Nat} (h : d < 10) (n : Nat) :
    LexState.numberStep? .integer (some n) (Nat.digitChar d) =
      some (.number .integer (some (n * 10 + d))) := by
  have hall : ∀ d, d < 10 →
      Nat.digitChar d ≠ '.' ∧ Nat.digitChar d ≠ 'e' ∧ Nat.digitChar d ≠ 'E' := by decide
  simp [LexState.numberStep?, hall d h, digit?_digitChar h]

theorem run_toDigits {n : Nat} (hpos : 0 < n) :
    run ⟨.between, p⟩ (Nat.toDigits 10 n) = some ⟨.number .integer (some n), p⟩ := by
  induction n using Nat.strongRecOn with
  | ind n ih =>
    -- the last digit continues what the others left; behind a zero none could, hence `hpos`
    rcases Nat.lt_or_ge n 10 with hlt | hge
    · rw [Nat.toDigits_of_lt_base hlt]
      simp [step, LexState.step, start_digitChar hpos hlt]
    · have hvalue : n / 10 * 10 + n % 10 = n := by omega
      have hdigit := numberStep?_digitChar (d := n % 10) (by omega) (n / 10)
      rw [Nat.toDigits_of_base_le (by decide) hge, run_append, ih _ (by omega) (by omega)]
      simp [step, LexState.step, hdigit, hvalue]

/-- A number is written so that it may end where its text ends. -/
theorem run_numberText (value : Option Nat) : ∃ phase, LexState.mayEnd phase = true ∧
    run ⟨.between, p⟩ (Token.number value).text = some ⟨.number phase value, p⟩ := by
  cases value with
  | none => exact ⟨.zero, rfl, rfl⟩
  | some n =>
    rcases Nat.eq_zero_or_pos n with rfl | hpos
    · exact ⟨.zero, rfl, rfl⟩
    · exact ⟨.integer, rfl, run_toDigits hpos⟩

/-! ## Tokens -/

/-- Where a text may end, the reader stands between two tokens or behind a number. -/
theorem settled?_cases {r : Reader} (h : r.settled? = some p) :
    r = ⟨.between, p⟩ ∨
      ∃ phase value, r.lexer = .number phase value ∧ LexState.mayEnd phase = true ∧
        r.parser.step (.number value) = some p := by
  obtain ⟨lexer, parser⟩ := r
  obtain ⟨last, hlast, hp⟩ := Option.bind_eq_some_iff.1 h
  cases lexer with
  | between =>
    cases hlast
    cases hp
    exact Or.inl rfl
  | number phase value =>
    simp only [LexState.finish, Option.ite_none_right_eq_some, Option.some.injEq] at hlast
    obtain ⟨hend, rfl⟩ := hlast
    refine Or.inr ⟨phase, value, rfl, hend, ?_⟩
    simpa using hp
  | _ => cases hlast

theorem expected_of_number {value : Option Nat} (h : p.step (.number value) = some p') :
    p'.expected = .afterValue (.number value) := by
  obtain ⟨stack, expected⟩ := p
  cases expected with
  | afterValue v => rcases stack with _ | ⟨_ | _, _⟩ <;> cases h
  | _ => cases h <;> rfl

theorem mark_of_afterValue {v : Value} {t : Token} (hv : p.expected = .afterValue v)
    (h : p.step t = some p') : t = .comma ∨ t = .closeBracket ∨ t = .closeBrace := by
  obtain ⟨stack, expected⟩ := p
  subst hv
  cases t with
  | comma | closeBracket | closeBrace => simp
  | _ => rcases stack with _ | ⟨_ | _, _⟩ <;> cases h

/-- A mark ends the number in front of it. -/
theorem step_mark {t : Token} {phase : NumberPhase} (value : Option Nat)
    (hend : LexState.mayEnd phase = true) (ht : t = .comma ∨ t = .closeBracket ∨ t = .closeBrace) :
    ∃ c, t.text = [c] ∧
      LexState.step (.number phase value) (some c) = some (.between, [.number value, t]) := by
  rcases ht with rfl | rfl | rfl
  all_goals
    refine ⟨_, rfl, ?_⟩
    cases phase <;> first | rfl | cases hend

/-- A token that its last character completes. -/
theorem run_completed {t : Token} (init : List Char) {last : Char} (htext : t.text = init ++ [last])
    (hinit : run ⟨.between, p⟩ init = some ⟨l, p⟩)
    (hlast : l.step (some last) = some (.between, [t])) (ht : p.step t = some p') :
    run ⟨.between, p⟩ t.text = some ⟨.between, p'⟩ := by
  rw [htext, run_append, hinit]
  simp [step_of_token hlast ht]

/-- Between two tokens the text of a token is read as the token. -/
theorem reads_token_between {t : Token} (ht : p.step t = some p') :
    ∃ r', run ⟨.between, p⟩ t.text = some r' ∧ r'.settled? = some p' := by
  cases t with
  | number value =>
    obtain ⟨phase, hend, hrun⟩ := run_numberText (p := p) value
    refine ⟨_, hrun, ?_⟩
    simp [settled?, LexState.finish, hend, ht]
  | string value =>
    refine ⟨⟨.between, p'⟩, ?_, rfl⟩
    cases value with
    | none => exact run_completed ['\x22', '\\', 'u', 'd', '8', '0', '0'] rfl rfl rfl ht
    | some s => exact run_stringText s ht
  | null => exact ⟨⟨.between, p'⟩, run_completed ['n', 'u', 'l'] rfl rfl rfl ht, rfl⟩
  | bool value =>
    refine ⟨⟨.between, p'⟩, ?_, rfl⟩
    cases value with
    | false => exact run_completed ['f', 'a', 'l', 's'] rfl rfl rfl ht
    | true => exact run_completed ['t', 'r', 'u'] rfl rfl rfl ht
  | _ => exact ⟨⟨.between, p'⟩, run_completed [] rfl rfl rfl ht, rfl⟩

/-- **Reading the text of a token is parsing the token.** -/
theorem reads_token {r : Reader} {t : Token} (h : r.settled? = some p) (ht : p.step t = some p') :
    ∃ r', r.run t.text = some r' ∧ r'.settled? = some p' := by
  rcases settled?_cases h with rfl | ⟨phase, value, hlexer, hend, hnumber⟩
  · exact reads_token_between ht
  · -- the number is still open; what the parser takes behind it is a mark, and a mark ends it
    have hmark := mark_of_afterValue (expected_of_number hnumber) ht
    obtain ⟨c, htext, hstep⟩ := step_mark value hend hmark
    refine ⟨⟨.between, p'⟩, ?_, rfl⟩
    simp [htext, step, hlexer, hstep, hnumber, ht]

theorem reads_tokens {tokens : List Token} {r : Reader} (h : r.settled? = some p)
    (ht : p.Takes tokens p') :
    ∃ r', r.run (tokens.flatMap Token.text) = some r' ∧ r'.settled? = some p' := by
  induction tokens generalizing r p with
  | nil =>
    cases ht
    exact ⟨r, rfl, h⟩
  | cons t tokens ih =>
    obtain ⟨q, hq, hrest⟩ := Option.bind_eq_some_iff.1 ht
    obtain ⟨r₁, hr₁, hsettled⟩ := reads_token h hq
    obtain ⟨r₂, hr₂, hlast⟩ := ih hsettled hrest
    refine ⟨r₂, ?_, hlast⟩
    rw [List.flatMap_cons, run_append, hr₁]
    exact hr₂

end Reader

/-! ## Values -/

namespace ParseState

/-- Behind an opening bracket a value is taken as the first item. -/
theorem takes_firstItem {v : Value} {stack : List Frame} {q : ParseState}
    (h : Takes ⟨.array [] :: stack, .value⟩ v.tokens q) : Takes ⟨stack, .firstItem⟩ v.tokens q := by
  cases v <;> exact h

-- One statement for each of the functions that write tokens, in one recursion over the tree.
mutual

/-- The tokens of a value are taken as the value. -/
theorem takes_tokens (v : Value) (stack : List Frame) :
    Takes ⟨stack, .value⟩ v.tokens ⟨stack, .afterValue v⟩ := by
  match v with
  | .null | .bool _ | .number _ | .string _ | .array [] | .object [] => rfl
  | .array (item :: rest) =>
    have hitem := takes_firstItem (takes_tokens item (.array [] :: stack))
    have hrest := takes_itemTokens rest item [] stack
    simpa [Value.tokens, itemTokens] using Takes.cons (t := .openBracket) rfl (hitem.append hrest)
  | .object ((key, value) :: rest) =>
    have hvalue := takes_tokens value (.object [] key :: stack)
    have hrest := takes_memberTokens rest key value [] stack
    have hkey : Takes ⟨stack, .firstKey⟩ [.string key, .colon]
        ⟨.object [] key :: stack, .value⟩ := rfl
    simpa [Value.tokens, memberTokens] using
      Takes.cons (t := .openBrace) rfl (hkey.append (hvalue.append hrest))

/-- The items behind `v` and the closing bracket; `before` holds those in front of it. -/
theorem takes_itemTokens (items : List Value) (v : Value) (before : List Value)
    (stack : List Frame) :
    Takes ⟨.array before :: stack, .afterValue v⟩ (itemTokens items ++ [.closeBracket])
      ⟨stack, .afterValue (.array ((v :: before).reverse ++ items))⟩ := by
  match items with
  | [] =>
    rw [List.append_nil]
    rfl
  | item :: rest =>
    have hitem := takes_tokens item (.array (v :: before) :: stack)
    have hrest := takes_itemTokens rest item (v :: before) stack
    simpa [itemTokens] using Takes.cons (t := .comma) rfl (hitem.append hrest)

/-- The members behind the one for `key` and the closing brace. -/
theorem takes_memberTokens (members : List (Option String × Value)) (key : Option String)
    (v : Value) (before : List (Option String × Value)) (stack : List Frame) :
    Takes ⟨.object before key :: stack, .afterValue v⟩ (memberTokens members ++ [.closeBrace])
      ⟨stack, .afterValue (.object (((key, v) :: before).reverse ++ members))⟩ := by
  match members with
  | [] =>
    rw [List.append_nil]
    rfl
  | (next, value) :: rest =>
    have hvalue := takes_tokens value (.object ((key, v) :: before) next :: stack)
    have hrest := takes_memberTokens rest next value ((key, v) :: before) stack
    have hkey : Takes ⟨.object before key :: stack, .afterValue v⟩ [.comma, .string next, .colon]
        ⟨.object ((key, v) :: before) next :: stack, .value⟩ := rfl
    simpa [memberTokens] using hkey.append (hvalue.append hrest)

end

end ParseState

/-- **The text of a value is read as the value.** -/
theorem Value.parse?_text (v : Value) : Value.parse? (v.text.map some) = some v := by
  obtain ⟨r, hrun, hsettled⟩ := Reader.reads_tokens (r := {}) rfl (ParseState.takes_tokens v [])
  have hread : (v.text.map some).foldlM Reader.step {} = some r := hrun
  simp [parse?, hread, Reader.finish_eq, hsettled, ParseState.finish]

end Munch.Json
