import Munch.Proofs.Table.Normal

/-!
# Looking a character up

A row is looked up by binary search: of the edges that start at or before the character, only the
last one is asked. That this is enough rests on the order and the disjointness of the edges, which
validation has brought about.

* `coverage` — how many edges of a list, in whatever order, cover a character.
* `coverage_le_one` — where every edge ends before the next ones start, at most one does.
* `Row.follow?_eq_some_iff` — on such a row, the edge that is asked is the one that covers the
  character, if there is any.
* `Draft.transition_iff_given` — so a validated table leads where the edges lead that were given.
-/

namespace Munch

/-- How many of the edges cover a character. Equal edges at different places count each. -/
def coverage (edges : List Edge) (c : Char) : Nat := edges.countP (·.range.contains c)

theorem coverage_cons (e : Edge) (rest : List Edge) (c : Char) :
    coverage (e :: rest) c = coverage rest c + if e.range.contains c then 1 else 0 :=
  List.countP_cons

theorem coverage_eq_zero {edges : List Edge} {c : Char} :
    coverage edges c = 0 ↔ ∀ e ∈ edges, ¬e.range.contains c = true :=
  List.countP_eq_zero

theorem coverage_pos {edges : List Edge} {c : Char} :
    0 < coverage edges c ↔ ∃ e ∈ edges, e.range.contains c = true :=
  List.countP_pos_iff

theorem coverage_perm {edges edges' : List Edge} (h : edges.Perm edges') (c : Char) :
    coverage edges c = coverage edges' c :=
  h.countP_eq _

/-- An edge that ends before all the others start shares no character with them. -/
theorem coverage_eq_zero_of_lt {e : Edge} {rest : List Edge} {c : Char}
    (h : ∀ x ∈ rest, e.range.last < x.range.first) (hc : e.range.contains c = true) :
    coverage rest c = 0 := by
  refine coverage_eq_zero.2 fun x hx hxc => ?_
  exact CharRange.disjoint_of_lt (h x hx) c ⟨hc, hxc⟩

/-- **Where every edge ends before the next ones start, a character has at most one.** -/
theorem coverage_le_one {edges : List Edge}
    (h : edges.Pairwise fun a b => a.range.last < b.range.first) (c : Char) :
    coverage edges c ≤ 1 := by
  induction edges with
  | nil => exact Nat.zero_le 1
  | cons e rest ih =>
    obtain ⟨hfirst, hrest⟩ := List.pairwise_cons.1 h
    rw [coverage_cons]
    split
    · rename_i hc
      have hnone := coverage_eq_zero_of_lt hfirst hc
      omega
    · exact ih hrest

/-! ## One row -/

namespace Row

variable {row : Row} {c : Char}

/-- The search stops behind the edges that start at or before the character. -/
theorem lt_edgeSearch_iff (hle : ∀ e ∈ row.edges, e.range.first ≤ e.range.last)
    (hlt : row.edges.toList.Pairwise fun a b => a.range.last < b.range.first) {i : Nat}
    (hi : i < row.edges.size) :
    i < Search.partitionPointOf row.edges (·.range.first ≤ c) ↔ row.edges[i].range.first ≤ c := by
  rw [Search.lt_partitionPointOf_iff ?_ hi]
  · exact decide_eq_true_iff
  · intro a b ha hb hab hc
    refine decide_eq_true (Char.le_trans ?_ (of_decide_eq_true hc))
    rcases Nat.eq_or_lt_of_le hab with rfl | hab
    · exact Char.le_refl _
    · have hbefore := List.pairwise_iff_getElem.1 hlt a b ha hb hab
      exact Char.le_trans (hle _ (Array.getElem_mem ha)) (Std.le_of_lt hbefore)

/-- **The last edge that starts at or before a character is the one that covers it.** -/
theorem follow?_eq_some_iff (hle : ∀ e ∈ row.edges, e.range.first ≤ e.range.last)
    (hlt : row.edges.toList.Pairwise fun a b => a.range.last < b.range.first)
    {target : StateId} :
    row.follow? c = some target ↔
      ∃ e ∈ row.edges, e.target = target ∧ e.range.contains c = true := by
  have hsearch := fun i => @lt_edgeSearch_iff row c hle hlt i
  have hbound := Search.partitionPointOf_le row.edges (·.range.first ≤ c)
  unfold follow?
  constructor
  · intro h
    split at h
    · cases h
    · obtain ⟨e, he, hif⟩ := Option.bind_eq_some_iff.1 h
      split at hif
      · rename_i hc
        exact ⟨e, Array.mem_of_getElem? he, Option.some.inj hif, hc⟩
      · cases hif
  · rintro ⟨e, he, rfl, hc⟩
    obtain ⟨k, hk, rfl⟩ := Array.getElem_of_mem he
    obtain ⟨hfirst, hlast⟩ := CharRange.contains_iff.1 hc
    have hkpoint := (hsearch k hk).2 hfirst
    split
    · rename_i hzero
      omega
    · rename_i i hpoint
      rw [hpoint] at hkpoint hbound hsearch
      -- an edge behind the covering one would start behind the character
      have hik : i = k := by
        refine Nat.le_antisymm (Nat.not_lt.1 fun hki => ?_) (Nat.le_of_lt_succ hkpoint)
        have hapart := List.pairwise_iff_getElem.1 hlt k i hk hbound hki
        have hstart : row.edges[i].range.first ≤ c := (hsearch i hbound).1 (Nat.lt_succ_self i)
        exact Char.not_le.2 hapart (Char.le_trans hstart hlast)
      rw [hik, Array.getElem?_eq_getElem hk, Option.bind_some, if_pos hc]

theorem follow?_eq_none_iff (hle : ∀ e ∈ row.edges, e.range.first ≤ e.range.last)
    (hlt : row.edges.toList.Pairwise fun a b => a.range.last < b.range.first) :
    row.follow? c = none ↔ ∀ e ∈ row.edges, ¬e.range.contains c = true := by
  rw [Option.eq_none_iff_forall_ne_some]
  constructor
  · intro h e he hc
    exact h e.target ((follow?_eq_some_iff hle hlt).2 ⟨e, he, rfl, hc⟩)
  · intro h target hsome
    obtain ⟨e, he, _, hc⟩ := (follow?_eq_some_iff hle hlt).1 hsome
    exact h e he hc

end Row

/-! ## The table -/

variable {d : Draft} {t : Table} {q : StateId} {row : Row}

/-- A validated table steps as the given row does once it is in order. -/
theorem Draft.transition_of_validate (h : d.validate = .ok t)
    (hrow : d.rows[q.index]? = some row) (input : Option Char) :
    t.transition q input = .ok (row.normalize.step input) := by
  obtain ⟨_, _, hdraft⟩ := Draft.validate_eq_ok_iff.1 h
  have hrows : t.rows = d.rows.map Row.normalize := congrArg Draft.rows hdraft
  have hget : t.rows[q.index]? = some row.normalize := by
    rw [hrows, Array.getElem?_map, hrow]
    rfl
  obtain ⟨hq, heq⟩ := Array.getElem?_eq_some_iff.1 hget
  rw [← heq]
  exact Table.transition_of_lt hq input

/-- **A validated table leads where the given edges lead.** The edges of a state are taken as they
were given, in any order: the state entered on a character is the target of the edge that covers it,
there is none if no edge does, and never do two edges cover one character. At the end of the input
the given transition is taken. -/
theorem Draft.transition_iff_given (h : d.validate = .ok t) (hrow : d.rows[q.index]? = some row) :
    (∀ c target, t.transition q (some c) = .ok (some target) ↔
      ∃ e ∈ row.edges, e.target = target ∧ e.range.first ≤ c ∧ c ≤ e.range.last) ∧
    (∀ c, t.transition q (some c) = .ok none ↔
      ∀ e ∈ row.edges, ¬(e.range.first ≤ c ∧ c ≤ e.range.last)) ∧
    (∀ c, coverage row.edges.toList c ≤ 1) ∧
    t.transition q none = .ok row.atEnd := by
  have hstep := Draft.transition_of_validate h hrow
  have hwell := (Draft.exists_validate_iff.1 ⟨t, h⟩).row row (Array.mem_of_getElem? hrow)
  have hnormal := hwell.normalFormOf
  have hle := (Row.sound_normalize_iff.2 hwell).range_le
  refine ⟨fun c target => ?_, fun c => ?_, fun c => ?_, hstep none⟩
  · have hfollow := @Row.follow?_eq_some_iff row.normalize c hle hnormal.edges_lt target
    simp only [Row.mem_edges_normalize, CharRange.contains_iff] at hfollow
    rw [hstep, Except.ok.injEq]
    exact hfollow
  · have hfollow := @Row.follow?_eq_none_iff row.normalize c hle hnormal.edges_lt
    simp only [Row.mem_edges_normalize, CharRange.contains_iff] at hfollow
    rw [hstep, Except.ok.injEq]
    exact hfollow
  · rw [← coverage_perm hnormal.edges_perm]
    exact coverage_le_one hnormal.edges_lt c

/-- Both ends of two neighbouring ranges that were given in the wrong order, and a character in
front of them. -/
theorem transition_jumbledDraft :
    ∃ t, jumbledDraft.validate = .ok t ∧
      t.transition ⟨0⟩ (some 'm') = .ok (some ⟨0⟩) ∧ t.transition ⟨0⟩ (some 'n') = .ok (some ⟨1⟩) ∧
      t.transition ⟨0⟩ (some 'A') = .ok none ∧ t.transition ⟨1⟩ none = .ok (some ⟨0⟩) := by
  obtain ⟨t, ht⟩ := Draft.exists_validate_iff.2 jumbledDraft_wellFormed
  obtain ⟨hsome, hnone, _⟩ := Draft.transition_iff_given (q := ⟨0⟩) ht rfl
  obtain ⟨_, _, _, hend⟩ := Draft.transition_iff_given (q := ⟨1⟩) ht rfl
  refine ⟨t, ht, (hsome 'm' ⟨0⟩).2 ?_, (hsome 'n' ⟨1⟩).2 ?_, (hnone 'A').2 ?_, hend⟩
  · exact ⟨⟨⟨'a', 'm'⟩, ⟨0⟩⟩, Array.mem_of_getElem? (i := 1) rfl, by decide⟩
  · exact ⟨⟨⟨'n', 'z'⟩, ⟨1⟩⟩, Array.mem_of_getElem? (i := 0) rfl, by decide⟩
  · decide

end Munch
