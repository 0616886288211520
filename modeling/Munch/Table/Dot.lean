import Munch.Error
import Munch.Table.Basic

/-!
# Tables as graphs

`Table.dot` draws a table in the dot language: one line per state, then one line per transition.
Start states of modes are blue circles, accepting states are red and list their symbols. Symbol
names and characters are escaped, so a label never ends early; the label of the whole graph is
the caller's business and is written as it is.

`Sink` is an output that may run out of room, `Table.writeDot` writes the graph into it.
-/

namespace Munch

namespace Dot

/-- An attribute with a quoted value. -/
def labelled (value : List Char) : List Char :=
  "label=\"".toList ++ value ++ "\"".toList

/-- The name of the node of a state. -/
def nodeName (state : Nat) : List Char := "node_".toList ++ Text.decimal state

/-- The label of the edges for a range. -/
def rangeLabel (range : CharRange) : List Char :=
  if range.first = range.last then Text.escapedChar range.first
  else Text.escapedChar range.first ++ ['-'] ++ Text.escapedChar range.last

/-- A line of the graph: indented, closed by a semicolon. -/
def line (content : List Char) : List Char := "  ".toList ++ content ++ ";\n".toList

/-- The line of an edge. -/
def edgeLine (source target : Nat) (label : List Char) : List Char :=
  line (nodeName source ++ " -> ".toList ++ nodeName target ++ " [".toList ++ labelled label ++
    "]".toList)

end Dot

open Dot

namespace Table

/-- The names of the symbols that a row accepts. -/
def acceptedNames (t : Table) (row : Row) : List Char :=
  (", ".intercalate (row.accepting.map fun s => (t.symbolName? s).getD "?")).toList

/-- Whether some mode starts in the state. -/
def isStart (t : Table) (state : Nat) : Bool := t.modes.any (·.start.index = state)

/-- The line of a state. -/
def nodeLine (t : Table) (state : Nat) (row : Row) : List Char :=
  let start := if t.isStart state then ", shape=circle, color=blue, penwidth=3".toList else []
  let accepting :=
    if row.isAccepting then
      ", color=red, penwidth=3, ".toList ++
        labelled (Text.decimal state ++ ['\n'] ++ Text.escaped (t.acceptedNames row))
    else []
  line (nodeName state ++ " [".toList ++ labelled (Text.decimal state) ++ start ++ accepting ++
    "]".toList)

/-- The lines of the transitions of a state, the end of the input last. -/
def edgeLines (state : Nat) (row : Row) : List Char :=
  (row.edges.toList.flatMap fun e => edgeLine state e.target.index (rangeLabel e.range)) ++
    (row.atEnd.toList.flatMap fun target => edgeLine state target.index "EOF".toList)

/-- The graph of a table. -/
def dotChars (t : Table) (label : List Char) : List Char :=
  let rows := t.rows.toList.zipIdx
  "digraph \x7b\n".toList ++ line (labelled label) ++ line "rankdir=LR".toList ++
    (rows.flatMap fun (row, state) => t.nodeLine state row) ++
    (rows.flatMap fun (row, state) => edgeLines state row) ++ "\x7d\n".toList

/-- The graph of a table as text. -/
def dot (t : Table) (label : String) : String := String.ofList (t.dotChars label.toList)

end Table

/-- An output that takes at most `room` bytes; without a bound it takes everything. -/
structure Sink where
  room : Option Nat := none
  written : String := ""
deriving Repr

/-- Writes a whole text, or fails when the room does not suffice. -/
def Sink.write (sink : Sink) (text : String) : Except Error Sink :=
  let size := text.utf8ByteSize
  match sink.room with
  | none => .ok { sink with written := sink.written ++ text }
  | some room =>
    if size ≤ room then .ok ⟨some (room - size), sink.written ++ text⟩
    else .error (.output "write failed")

/-- Writes the graph of a table. -/
def Table.writeDot (t : Table) (label : String) (sink : Sink) : Except Error Sink :=
  sink.write (t.dot label)

end Munch
