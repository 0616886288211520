import Munch.Error
import Munch.Logged
import Munch.Table.Basic

/-!
# Validation

`Draft.validate` turns a draft into a table or names its first defect.

* `Row.normalize` sorts the transitions by their first character, keeping the given order of
  equals, and the accepted symbols by number, without repetitions.
* The defects of a row are looked for in the normalised row, in this order: transition by
  transition an inverted range and a missing target, then overlapping neighbours, the target at
  the end of the input, and the accepted symbols.
* Rows come before modes and modes before symbol names. Without any mode, the mode `INITIAL`
  starting in state 0 is supplied.
-/

namespace Munch

/-- Keeps one element of each run of equal neighbours. -/
def collapseRuns {α : Type} [DecidableEq α] : List α → List α
  | [] => []
  | [a] => [a]
  | a :: b :: rest => if a = b then collapseRuns (b :: rest) else a :: collapseRuns (b :: rest)

/-- Edges sorted by their first character; edges with the same one keep their order. -/
def sortEdges (edges : List Edge) : List Edge :=
  edges.mergeSort fun a b => a.range.first ≤ b.range.first

/-- Symbols in ascending order without repetitions. -/
def sortSymbols (symbols : List SymbolId) : List SymbolId :=
  collapseRuns (symbols.mergeSort fun a b => a.index ≤ b.index)

/-- The row with its transitions and accepted symbols in order. -/
def Row.normalize (row : Row) : Row :=
  { row with
    edges := (sortEdges row.edges.toList).toArray
    accepting := sortSymbols row.accepting }

/-- A reference to a state behind the last one. -/
def stateDefect? (states : Nat) (referrer : Referrer) (target : StateId) : Option TableError :=
  if target.index < states then none else some (.invalidState target.index referrer)

/-- What is wrong with an edge of the row at `index`. -/
def edgeDefect? (states index : Nat) (edge : Edge) : Option TableError :=
  if edge.range.isInverted then some (.invalidRange index edge.range)
  else stateDefect? states (.state index) edge.target

/-- The first edge that starts before its predecessor has ended. -/
def overlap? : List Edge → Option Edge
  | a :: b :: rest => if b.range.first ≤ a.range.last then some b else overlap? (b :: rest)
  | _ => none

/-- The first defect of the normalised row at `index`. -/
def Row.defect? (states symbols index : Nat) (row : Row) : Option TableError :=
  row.edges.toList.findSome? (edgeDefect? states index)
  <|> (overlap? row.edges.toList).map (fun edge => .overlappingTransitions index edge.range.first)
  <|> row.atEnd.bind (stateDefect? states (.endOfInput index))
  <|> (row.accepting.find? (symbols ≤ ·.index)).map (fun s => .invalidSymbol s.index index)

/-- The first defect among the normalised rows from `index` on. -/
def rowsDefect? (states symbols : Nat) : Nat → List Row → Option TableError
  | _, [] => none
  | index, row :: rest =>
    row.defect? states symbols index <|> rowsDefect? states symbols (index + 1) rest

/-- The start state of a mode has to exist. -/
def Mode.defect? (states : Nat) (mode : Mode) : Option TableError :=
  stateDefect? states (.mode mode.name) mode.start

/-- The mode of a table that names none. -/
def Mode.initial : Mode := ⟨"INITIAL", ⟨0⟩⟩

/-- Numbers the names from `index` on and adds them to `known`, unless one is known already. -/
def indexNames : Nat → List String → Std.HashMap String SymbolId →
    Except TableError (Std.HashMap String SymbolId)
  | _, [], known => .ok known
  | index, name :: rest, known =>
    if known.contains name then .error (.duplicateSymbol name)
    else indexNames (index + 1) rest (known.insert name (.ofIndex index))

namespace Draft

/-- The draft with normalised rows and at least one mode. -/
def normalize (d : Draft) : Draft :=
  { d with
    rows := d.rows.map Row.normalize
    modes := if d.modes.isEmpty then #[.initial] else d.modes }

/-- The first defect of a normalised draft in its states and modes. -/
def defect? (d : Draft) : Option TableError :=
  if d.rows.isEmpty then some .noStates
  else
    rowsDefect? d.rows.size d.symbols.size 0 d.rows.toList
    <|> d.modes.toList.findSome? (Mode.defect? d.rows.size)

/-- The table of a draft, or the first defect that stands in the way. -/
def validate (d : Draft) : Except TableError Table :=
  let normal := d.normalize
  match normal.defect? with
  | some defect => .error defect
  | none => do
    let names ← indexNames 0 (normal.symbols.toList.map (·.name)) ∅
    return ⟨normal.rows, normal.symbols, normal.modes, names⟩

/-- Validation that reports its success. -/
def build (d : Draft) : Logged (Except TableError Table) :=
  match d.validate with
  | .error defect => pure (.error defect)
  | .ok t => do
    Logged.emit (.validated t.rows.size t.symbols.size t.modes.size)
    return .ok t

end Draft

end Munch
