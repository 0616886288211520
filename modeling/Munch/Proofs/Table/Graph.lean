import Munch.Proofs.Table.RoundTrip
import Munch.Proofs.Text.Quoted
import Munch.Table.Dot

/-!
# The drawing of a table determines its graph

The text of a graph is a list of lines, and what a line shows stands in quotes. Between the quotes
are names that a user chose and characters of any kind.

* `Dot.exitText_injective` — what the label of a transition says is one range, or the end of the
  input. `Dot.labelled_append_inj` — a label that can be read back ends at its closing quote.
* `Dot.Item` — a line of the graph. `Dot.Item.text_append_inj` — a line is determined by its text,
  whatever follows, and so is a list of lines: `Dot.flatMap_text_inj`.
* `Dot.Vertex` — a state as it is drawn. `Dot.items_injective` — the lines determine the states.
* `Table.dotChars_eq` — the drawing of a table is that of its states, `Table.graph`.
* `Table.Validated.dot_determines_graph` — two tables are drawn alike if and only if they have the
  same graph, `Table.SameGraph`.
-/

namespace Munch

open Text

namespace Dot

/-! ## Labels -/

/-- What the label of a range says. -/
def rangeText (range : CharRange) : List Char :=
  if range.first = range.last then [range.first] else [range.first, '-', range.last]

/-- What the label of a transition says: a range of characters, or the end of the input. -/
def exitText : Option CharRange → List Char
  | some range => rangeText range
  | none => "EOF".toList

/-- The label of a transition. -/
def exitLabel : Option CharRange → List Char
  | some range => rangeLabel range
  | none => "EOF".toList

/-- The label of an accepting state. -/
def acceptingLabel (state : Nat) (names : List Char) : List Char :=
  decimal state ++ ['\n'] ++ escaped names

theorem rangeText_injective {range range' : CharRange} (h : rangeText range = rangeText range') :
    range = range' := by
  obtain ⟨first, last⟩ := range
  obtain ⟨first', last'⟩ := range'
  unfold rangeText at h
  split at h <;> split at h <;> simp_all

theorem rangeText_ne_end (range : CharRange) : rangeText range ≠ "EOF".toList := by
  intro h
  unfold rangeText at h
  split at h <;> simp at h

/-- **A label is taken for no other range and not for the end of the input.** -/
theorem exitText_injective {on on' : Option CharRange} (h : exitText on = exitText on') :
    on = on' := by
  cases on with
  | none =>
    cases on' with
    | none => rfl
    | some range' => exact absurd h.symm (rangeText_ne_end range')
  | some range =>
    cases on' with
    | none => exact absurd h (rangeText_ne_end range)
    | some range' => exact congrArg some (rangeText_injective h)

theorem reads_rangeLabel (range : CharRange) : Reads (rangeLabel range) (rangeText range) := by
  unfold rangeLabel rangeText
  split
  · exact reads_escapedChar _
  · have hdash : Reads ['-'] ['-'] := reads_singleton (by decide) (by decide)
    exact ((reads_escapedChar _).append hdash).append (reads_escapedChar _)

theorem reads_end : Reads "EOF".toList "EOF".toList := by
  apply reads_of_forall_mem
  intro c hc
  have hletters : "EOF".toList = ['E', 'O', 'F'] := rfl
  rw [hletters, List.mem_cons, List.mem_cons, List.mem_singleton] at hc
  rcases hc with rfl | rfl | rfl <;> decide

theorem reads_exitLabel : ∀ on, Reads (exitLabel on) (exitText on)
  | none => reads_end
  | some range => reads_rangeLabel range

theorem reads_acceptingLabel (state : Nat) (names : List Char) :
    Reads (acceptingLabel state names) (decimal state ++ ['\n'] ++ names) := by
  have hbreak : Reads ['\n'] ['\n'] := reads_singleton (by decide) (by decide)
  exact ((reads_decimal state).append hbreak).append (reads_escaped names)

/-- **A label ends at its closing quote.** -/
theorem labelled_append_inj {a b p q x y : List Char} (ha : Reads a p) (hb : Reads b q)
    (h : labelled a ++ x = labelled b ++ y) : p = q ∧ x = y := by
  have hquoted : a ++ '\x22' :: x = b ++ '\x22' :: y := by
    unfold labelled at h
    simpa using h
  have hread := readQuoted?_of_reads ha x
  rw [hquoted, readQuoted?_of_reads hb y] at hread
  cases hread
  exact ⟨rfl, rfl⟩

/-! ## Lines -/

/-- A line of the graph: a state, or a transition. -/
inductive Item where
  /-- A state: whether a mode starts there, and the names it accepts. -/
  | node (state : Nat) (start : Bool) (names : Option (List Char))
  /-- A transition on a range, or on the end of the input. -/
  | exit (source : Nat) (target : StateId) (on : Option CharRange)
deriving DecidableEq, Repr

/-- The attributes of a start state. -/
def startText (start : Bool) : List Char :=
  if start then ", shape=circle, color=blue, penwidth=3".toList else []

/-- The attributes of an accepting state. -/
def namesText (state : Nat) : Option (List Char) → List Char
  | some names => ", color=red, penwidth=3, ".toList ++ labelled (acceptingLabel state names)
  | none => []

namespace Item

/-- The state whose number opens the line. -/
def state : Item → Nat
  | node state .. => state
  | exit source .. => source

/-- The line behind the number that opens it. -/
def body : Item → List Char
  | node state start names =>
    '[' :: (labelled (decimal state) ++ (startText start ++ (namesText state names ++
      [']', ';', '\n'])))
  | exit _ target on =>
    "-> node_".toList ++ (decimal target.index ++ ' ' :: '[' :: (labelled (exitLabel on) ++
      [']', ';', '\n']))

/-- A line as it is written. -/
def text (item : Item) : List Char := "  node_".toList ++ (decimal item.state ++ ' ' :: item.body)

end Item

theorem namesText_append_inj {state : Nat} {names names' : Option (List Char)} {x y : List Char}
    (h : namesText state names ++ (']' :: x) = namesText state names' ++ (']' :: y)) :
    names = names' ∧ x = y := by
  cases names with
  | none =>
    cases names' with
    | none =>
      obtain ⟨_, hrest⟩ := List.cons.inj h
      exact ⟨rfl, hrest⟩
    | some names' => cases h
  | some names =>
    cases names' with
    | none => cases h
    | some names' =>
      unfold namesText at h
      simp only [List.append_assoc, List.append_cancel_left_eq] at h
      obtain ⟨hlabels, hrest⟩ :=
        labelled_append_inj (reads_acceptingLabel _ _) (reads_acceptingLabel _ _) h
      simp only [List.append_cancel_left_eq] at hlabels
      exact ⟨congrArg some hlabels, (List.cons.inj hrest).2⟩

/-- The attributes of a state tell a start state from another, and the names it accepts. -/
theorem startText_append_inj {state : Nat} {start start' : Bool} {names names' : Option (List Char)}
    {x y : List Char}
    (h : startText start ++ (namesText state names ++ (']' :: x)) =
      startText start' ++ (namesText state names' ++ (']' :: y))) :
    start = start' ∧ names = names' ∧ x = y := by
  cases start with
  | false =>
    cases start' with
    | false => exact ⟨rfl, namesText_append_inj h⟩
    | true =>
      -- the next attribute would have to be the shape
      cases names <;> cases h
  | true =>
    cases start' with
    | false => cases names' <;> cases h
    | true =>
      rw [List.append_cancel_left_eq] at h
      exact ⟨rfl, namesText_append_inj h⟩

theorem Item.body_append_inj {item item' : Item} {x y : List Char}
    (hstate : item.state = item'.state) (h : item.body ++ x = item'.body ++ y) :
    item = item' ∧ x = y := by
  cases item with
  | node state start names =>
    cases item' with
    | node state' start' names' =>
      obtain rfl : state = state' := hstate
      unfold body at h
      simp only [List.cons_append, List.append_assoc, List.cons.injEq, true_and,
        List.append_cancel_left_eq] at h
      obtain ⟨rfl, rfl, hrest⟩ := startText_append_inj h
      exact ⟨rfl, by simpa using hrest⟩
    | exit source target on => cases h
  | exit source target on =>
    cases item' with
    | node state' start' names' => cases h
    | exit source' target' on' =>
      obtain rfl : source = source' := hstate
      unfold body at h
      simp only [List.append_assoc, List.cons_append, List.append_cancel_left_eq] at h
      obtain ⟨htarget, hlabels⟩ := decimal_append_inj (by decide) h
      obtain ⟨hon, hrest⟩ :=
        labelled_append_inj (reads_exitLabel on) (reads_exitLabel on') (List.cons.inj hlabels).2
      obtain rfl : target = target' := Ident.index_injective htarget
      obtain rfl : on = on' := exitText_injective hon
      exact ⟨rfl, by simpa using hrest⟩

/-- **A line is determined by its text**, whatever follows. -/
theorem Item.text_append_inj {item item' : Item} {x y : List Char}
    (h : item.text ++ x = item'.text ++ y) : item = item' ∧ x = y := by
  unfold text at h
  simp only [List.append_assoc, List.cons_append, List.append_cancel_left_eq] at h
  obtain ⟨hstate, hbody⟩ := decimal_append_inj (by decide) h
  exact body_append_inj hstate hbody

/-- **The lines of a graph are determined by its text**: none of them starts with the brace that
closes the graph. -/
theorem flatMap_text_inj {items items' : List Item} {x y : List Char}
    (h : items.flatMap Item.text ++ '\x7d' :: x = items'.flatMap Item.text ++ '\x7d' :: y) :
    items = items' := by
  induction items generalizing items' with
  | nil =>
    cases items' with
    | nil => rfl
    | cons item' rest' => cases h
  | cons item rest ih =>
    cases items' with
    | nil => cases h
    | cons item' rest' =>
      simp only [List.flatMap_cons, List.append_assoc] at h
      obtain ⟨rfl, hrest⟩ := Item.text_append_inj h
      rw [ih hrest]

/-! ## States -/

/-- A state as it is drawn. -/
@[ext]
structure Vertex where
  /-- Whether a mode starts here. -/
  start : Bool
  /-- The names of an accepting state, joined by commas. -/
  names : Option (List Char)
  /-- The transitions on ranges, and the one on the end of the input. -/
  exits : List (Option CharRange × StateId)
deriving DecidableEq, Repr

/-- The lines of a graph: its states, then their transitions. -/
def items (graph : List Vertex) : List Item :=
  (graph.zipIdx.map fun (v, state) => .node state v.start v.names) ++
    graph.zipIdx.flatMap fun (v, state) => v.exits.map fun (on, target) => .exit state target on

/-- What the line of a state says about it. -/
def Item.node? : Item → Option (Bool × Option (List Char))
  | node _ start names => some (start, names)
  | exit .. => none

/-- What the line of a transition from the given state says about it. -/
def Item.exitFrom? (state : Nat) : Item → Option (Option CharRange × StateId)
  | node .. => none
  | exit source target on => if source = state then some (on, target) else none

theorem filterMap_node?_items (graph : List Vertex) :
    (items graph).filterMap Item.node? = graph.map fun v => (v.start, v.names) := by
  have hexits : ∀ item ∈ graph.zipIdx.flatMap fun (v, state) =>
      v.exits.map fun (on, target) => Item.exit state target on, item.node? = none := by
    simp only [List.mem_flatMap, List.mem_map]
    rintro _ ⟨_, _, _, _, rfl⟩
    rfl
  unfold items
  rw [List.filterMap_append, List.filterMap_eq_nil_iff.2 hexits, List.append_nil,
    List.filterMap_map]
  calc graph.zipIdx.filterMap (Item.node? ∘ fun (v, state) => .node state v.start v.names)
      = (graph.zipIdx.map Prod.fst).map fun v => (v.start, v.names) := by
        rw [List.map_map, ← List.filterMap_eq_map]
        rfl
    _ = graph.map fun v => (v.start, v.names) := by rw [List.zipIdx_map_fst]

/-- Out of a numbered list, what belongs to one number. -/
theorem flatMap_zipIdx_ite {α β : Type} (l : List α) (f : α → List β) (k i : Nat) :
    ((l.zipIdx k).flatMap fun p => if p.2 = k + i then f p.1 else []) = (l[i]?.map f).getD [] := by
  induction l generalizing k i with
  | nil => rfl
  | cons a l ih =>
    rw [List.zipIdx_cons, List.flatMap_cons]
    cases i with
    | zero =>
      have hrest :
          (l.zipIdx (k + 1)).flatMap (fun p => if p.2 = k + 0 then f p.1 else []) = [] := by
        rw [List.flatMap_eq_nil_iff]
        intro p hp
        have hle := List.le_snd_of_mem_zipIdx hp
        exact if_neg (by omega)
      rw [hrest, if_pos (Nat.add_zero k).symm, List.append_nil]
      rfl
    | succ i =>
      have hshift : k + (i + 1) = k + 1 + i := by omega
      have hne : ¬k = k + 1 + i := by omega
      rw [hshift, ih, if_neg hne]
      rfl

theorem filterMap_exitFrom?_items (graph : List Vertex) (state : Nat) :
    (items graph).filterMap (Item.exitFrom? state) = (graph[state]?.map (·.exits)).getD [] := by
  have hnodes : ∀ item ∈ graph.zipIdx.map fun (v, state) => Item.node state v.start v.names,
      item.exitFrom? state = none := by
    simp only [List.mem_map]
    rintro _ ⟨_, _, rfl⟩
    rfl
  unfold items
  rw [List.filterMap_append, List.filterMap_eq_nil_iff.2 hnodes, List.nil_append,
    List.filterMap_flatMap, ← flatMap_zipIdx_ite graph (·.exits) 0 state]
  congr 1
  funext p
  simp only [Nat.zero_add, List.filterMap_map]
  by_cases hsource : p.2 = state <;> simp [Function.comp_def, Item.exitFrom?, hsource]

/-- **The lines of a graph determine its states.** -/
theorem items_injective {graph graph' : List Vertex} (h : items graph = items graph') :
    graph = graph' := by
  have hnodes := congrArg (List.filterMap Item.node?) h
  rw [filterMap_node?_items, filterMap_node?_items] at hnodes
  have hlength : graph.length = graph'.length := by
    simpa using congrArg List.length hnodes
  apply List.ext_getElem hlength
  intro state hstate hstate'
  have hnode := congrArg (·[state]?) hnodes
  have hexits := congrArg (List.filterMap (Item.exitFrom? state)) h
  rw [filterMap_exitFrom?_items, filterMap_exitFrom?_items] at hexits
  simp only [List.getElem?_map, List.getElem?_eq_getElem, hstate, hstate', Option.map_some,
    Option.getD_some, Option.some.injEq, Prod.mk.injEq] at hnode hexits
  obtain ⟨hstart, hnames⟩ := hnode
  exact Vertex.ext hstart hnames hexits

end Dot

open Dot

/-- The transitions of a row, the end of the input last. -/
def Row.exits (row : Row) : List (Option CharRange × StateId) :=
  (row.edges.toList.map fun e => (some e.range, e.target)) ++
    row.atEnd.toList.map fun target => (none, target)

theorem Row.exits_eq_iff {row row' : Row} :
    row.exits = row'.exits ↔ row.edges = row'.edges ∧ row.atEnd = row'.atEnd := by
  -- the edges are what has a range, the end of the input is what has none
  have hedges : ∀ r : Row, (r.exits.filterMap fun e => e.1.map fun range => Edge.mk range e.2) =
      r.edges.toList := by
    intro r
    unfold exits
    rw [List.filterMap_append, List.filterMap_map, List.filterMap_map]
    show r.edges.toList.filterMap some ++ r.atEnd.toList.filterMap (fun _ => none) = _
    simp
  have hends : ∀ r : Row, (r.exits.filterMap fun e => if e.1 = none then some e.2 else none) =
      r.atEnd.toList := by
    intro r
    unfold exits
    rw [List.filterMap_append, List.filterMap_map, List.filterMap_map]
    show r.edges.toList.filterMap (fun _ => none) ++ r.atEnd.toList.filterMap some = _
    simp
  constructor
  · intro h
    have htoList : row.atEnd.toList = row'.atEnd.toList := by rw [← hends row, ← hends row', h]
    refine ⟨Array.toList_inj.1 ?_, by simpa using congrArg List.head? htoList⟩
    rw [← hedges row, ← hedges row', h]
  · rintro ⟨hedges, hends⟩
    unfold exits
    rw [hedges, hends]

namespace Table

/-- A state of a table as it is drawn. -/
def vertex (t : Table) (state : Nat) (row : Row) : Vertex where
  start := t.isStart state
  names := if row.isAccepting then some (t.acceptedNames row) else none
  exits := row.exits

/-- The states of a table as they are drawn. -/
def graph (t : Table) : List Vertex := t.rows.toList.mapIdx t.vertex

theorem nodeLine_eq (t : Table) (state : Nat) (row : Row) :
    t.nodeLine state row =
      (Item.node state (t.vertex state row).start (t.vertex state row).names).text := by
  unfold nodeLine Item.text Item.body vertex startText namesText acceptingLabel line nodeName
  cases t.isStart state <;> cases row.isAccepting <;> simp [Item.state]

theorem edgeLine_eq (source : Nat) (target : StateId) (on : Option CharRange) :
    edgeLine source target.index (exitLabel on) = (Item.exit source target on).text := by
  unfold edgeLine Item.text Item.body line nodeName
  simp [Item.state]

theorem edgeLines_eq (state : Nat) (row : Row) :
    edgeLines state row =
      (row.exits.map fun (on, target) => Item.exit state target on).flatMap Item.text := by
  unfold edgeLines Row.exits
  simp only [List.map_append, List.map_map, List.flatMap_append, List.flatMap_map,
    Function.comp_apply, ← edgeLine_eq]
  rfl

/-- Numbering what was made with numbers gives the same numbers. -/
theorem zipIdx_mapIdx {α β : Type} (f : Nat → α → β) (l : List α) :
    (l.mapIdx f).zipIdx = l.zipIdx.map fun p => (f p.2 p.1, p.2) := by
  apply List.ext_getElem?
  intro i
  simp [List.getElem?_zipIdx, Function.comp_def]

/-- **The drawing of a table is that of its graph.** -/
theorem dotChars_eq (t : Table) (label : List Char) :
    t.dotChars label = "digraph \x7b\n".toList ++ line (labelled label) ++
      line "rankdir=LR".toList ++ ((items t.graph).flatMap Item.text ++ ['\x7d', '\n']) := by
  unfold dotChars items graph
  simp only [zipIdx_mapIdx, List.flatMap_append, List.flatMap_map, List.flatMap_assoc,
    List.map_map, Function.comp_def, nodeLine_eq, edgeLines_eq, List.append_assoc]
  rfl

variable {t t' : Table}

/-- **Two tables are drawn alike if and only if their states are.** -/
theorem dot_eq_iff {label : String} : t.dot label = t'.dot label ↔ t.graph = t'.graph := by
  unfold dot
  rw [String.ofList_inj, dotChars_eq, dotChars_eq, List.append_cancel_left_eq]
  constructor
  · intro h
    exact items_injective (flatMap_text_inj h)
  · intro h
    rw [h]

/-! ## The same graph -/

/-- Rows of two tables with the same transitions that accept the same names. -/
structure SameState (t t' : Table) (row row' : Row) : Prop where
  /-- The transitions on characters, in order. -/
  edges : row.edges = row'.edges
  /-- The transition on the end of the input. -/
  atEnd : row.atEnd = row'.atEnd
  accepting : row.isAccepting = row'.isAccepting
  /-- The names of the accepted symbols, joined by commas. -/
  names : row.isAccepting = true → t.acceptedNames row = t'.acceptedNames row'

/-- Tables with the same states and the same start states. -/
structure SameGraph (t t' : Table) : Prop where
  size : t.rows.size = t'.rows.size
  states : ∀ (i : Nat) row row', t.rows[i]? = some row → t'.rows[i]? = some row' →
    SameState t t' row row'
  starts : ∀ state, (∃ mode ∈ t.modes, mode.start = state) ↔ ∃ mode ∈ t'.modes, mode.start = state

theorem isStart_iff {state : Nat} :
    t.isStart state = true ↔ ∃ mode ∈ t.modes, mode.start.index = state := by
  unfold isStart
  simp only [Array.any_eq_true', decide_eq_true_eq]

theorem ite_some_eq_iff {α : Type} {a b : Bool} {x y : α} :
    (if a then some x else none) = (if b then some y else none) ↔ a = b ∧ (a = true → x = y) := by
  cases a <;> cases b <;> simp

theorem vertex_eq_iff {i : Nat} {row row' : Row} :
    t.vertex i row = t'.vertex i row' ↔
      t.isStart i = t'.isStart i ∧ SameState t t' row row' := by
  unfold vertex
  rw [Vertex.mk.injEq, ite_some_eq_iff, Row.exits_eq_iff]
  constructor
  · rintro ⟨hstart, ⟨haccepting, hnames⟩, hedges, hatEnd⟩
    exact ⟨hstart, hedges, hatEnd, haccepting, hnames⟩
  · rintro ⟨hstart, hedges, hatEnd, haccepting, hnames⟩
    exact ⟨hstart, ⟨haccepting, hnames⟩, hedges, hatEnd⟩

theorem getElem?_graph (t : Table) (i : Nat) : t.graph[i]? = t.rows[i]?.map (t.vertex i) := by
  unfold graph
  rw [List.getElem?_mapIdx, Array.getElem?_toList]

theorem length_graph (t : Table) : t.graph.length = t.rows.size := by
  simp [graph]

/-- If the states are drawn alike, a mode of the one table starts where one of the other does. -/
theorem Validated.exists_start_of_graph_eq (valid : t.Validated) (h : t.graph = t'.graph)
    {mode : Mode} (hmode : mode ∈ t.modes) : ∃ mode' ∈ t'.modes, mode'.start = mode.start := by
  have hlt : mode.start.index < t.rows.size := valid.sound.2 mode hmode
  have hlt' : mode.start.index < t'.rows.size := by
    rw [← length_graph t', ← h, length_graph]
    exact hlt
  have hvertex := congrArg (·[mode.start.index]?) h
  simp only [getElem?_graph, Array.getElem?_eq_getElem, hlt, hlt', Option.map_some,
    Option.some.injEq, vertex_eq_iff] at hvertex
  have hstart : t'.isStart mode.start.index = true := by
    rw [← hvertex.1]
    exact isStart_iff.2 ⟨mode, hmode, rfl⟩
  obtain ⟨mode', hmode', hindex⟩ := isStart_iff.1 hstart
  exact ⟨mode', hmode', Ident.index_injective hindex⟩

theorem Validated.sameGraph_of_graph_eq (valid : t.Validated) (valid' : t'.Validated)
    (h : t.graph = t'.graph) : t.SameGraph t' := by
  constructor
  case size => rw [← length_graph t, h, length_graph]
  case states =>
    intro i row row' hrow hrow'
    have hvertex := congrArg (·[i]?) h
    simp only [getElem?_graph, hrow, hrow', Option.map_some, Option.some.injEq,
      vertex_eq_iff] at hvertex
    exact hvertex.2
  case starts =>
    intro state
    constructor
    · rintro ⟨mode, hmode, rfl⟩
      exact valid.exists_start_of_graph_eq h hmode
    · rintro ⟨mode, hmode, rfl⟩
      exact valid'.exists_start_of_graph_eq h.symm hmode

theorem SameGraph.isStart_eq (h : t.SameGraph t') (i : Nat) : t.isStart i = t'.isStart i := by
  rw [Bool.eq_iff_iff, isStart_iff, isStart_iff]
  constructor
  · rintro ⟨mode, hmode, rfl⟩
    obtain ⟨mode', hmode', hstart⟩ := (h.starts mode.start).1 ⟨mode, hmode, rfl⟩
    exact ⟨mode', hmode', congrArg Ident.index hstart⟩
  · rintro ⟨mode', hmode', rfl⟩
    obtain ⟨mode, hmode, hstart⟩ := (h.starts mode'.start).2 ⟨mode', hmode', rfl⟩
    exact ⟨mode, hmode, congrArg Ident.index hstart⟩

theorem SameGraph.graph_eq (h : t.SameGraph t') : t.graph = t'.graph := by
  apply List.ext_getElem
  · rw [length_graph, length_graph, h.size]
  intro i hi hi'
  unfold graph at hi hi' ⊢
  rw [List.length_mapIdx, Array.length_toList] at hi hi'
  rw [List.getElem_mapIdx, List.getElem_mapIdx, vertex_eq_iff]
  exact ⟨h.isStart_eq i, h.states i _ _ (by simp) (by simp)⟩

/-- **The drawing of a table determines its graph, and nothing else of it.** The names in the label
of an accepting state end at the closing quote and are read back as they are. The label of a
transition ends at its closing quote, too, and is read as one range only, or as the end of the
input. -/
theorem Validated.dot_determines_graph (valid : t.Validated) (valid' : t'.Validated)
    (label : String) :
    (t.dot label = t'.dot label ↔ t.SameGraph t') ∧
    (∀ state names rest,
      readQuoted? none (decimal state ++ ['\n'] ++ escaped names ++ '\x22' :: rest) =
        some (decimal state ++ ['\n'] ++ names, rest)) ∧
    (∀ on rest, readQuoted? none (exitLabel on ++ '\x22' :: rest) = some (exitText on, rest)) ∧
    ∀ on on', exitText on = exitText on' → on = on' := by
  refine ⟨?_, ?_, ?_, ?_⟩
  · rw [dot_eq_iff]
    exact ⟨valid.sameGraph_of_graph_eq valid', SameGraph.graph_eq⟩
  · intro state names rest
    exact readQuoted?_of_reads (reads_acceptingLabel state names) rest
  · intro on rest
    exact readQuoted?_of_reads (reads_exitLabel on) rest
  · intro on on' h
    exact exitText_injective h

end Table

/-- The graph of `oddTable` with one symbol that is named like its two, and with two modes. -/
def joinedTable : Table where
  rows := #[
    { edges := #[⟨⟨'\x00', '\x22'⟩, ⟨1⟩⟩, ⟨⟨'\\', Char.ofNat 0x10ffff⟩, ⟨0⟩⟩], atEnd := some ⟨1⟩ },
    { accepting := [⟨0⟩] }]
  symbols := #[{ name := "\x22\\\n\x01, " }]
  modes := #[⟨"INITIAL", ⟨1⟩⟩, ⟨"AGAIN", ⟨1⟩⟩]
  names := (∅ : Std.HashMap String SymbolId).insert "\x22\\\n\x01, " (.ofIndex 0)

theorem joinedTable_validated : joinedTable.Validated := by
  have hnormal : joinedTable.toDraft.normalize = joinedTable.toDraft := by
    simp (disch := decide) [Draft.normalize, Row.normalize_of_pairwise, Table.toDraft, joinedTable]
  have hnames : indexNames 0 (joinedTable.symbols.toList.map (·.name)) ∅ =
      .ok joinedTable.names := by
    simp [indexNames, joinedTable]
  exact Table.validated_of_normal hnormal (by decide) hnames

/-- Two tables that differ in their symbols and modes, drawn alike under a label that is a quote. -/
theorem dot_determines_graph_oddTable : oddTable.Validated ∧ joinedTable.Validated ∧
    oddTable.dot "\x22" = joinedTable.dot "\x22" ∧ oddTable.SameGraph joinedTable := by
  have hchars : oddTable.dotChars ['\x22'] = joinedTable.dotChars ['\x22'] := by decide +kernel
  have hdot : oddTable.dot "\x22" = joinedTable.dot "\x22" := congrArg String.ofList hchars
  obtain ⟨hiff, _⟩ := oddTable_validated.dot_determines_graph joinedTable_validated "\x22"
  exact ⟨oddTable_validated, joinedTable_validated, hdot, hiff.1 hdot⟩

end Munch
