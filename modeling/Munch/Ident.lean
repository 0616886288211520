/-!
# Identifiers

States, symbols and actions are numbered from zero by 32-bit words. `Ident kind` is such a
number together with what it numbers, so that a state is never taken for a symbol.

* `Ident.index` is the number as an array index.
* `Ident.ofIndex` numbers an index; from `2 ^ 32` on the numbers repeat.
-/

namespace Munch

/-- What an identifier numbers. -/
inductive IdentKind where
  | state
  | symbol
  | action
deriving DecidableEq, Repr

/-- The number of a state, a symbol or an action. -/
structure Ident (kind : IdentKind) where
  raw : UInt32
deriving DecidableEq, Repr

/-- The number of a row of a table. -/
abbrev StateId := Ident .state

/-- The number of a lexical rule. A smaller number has the higher priority. -/
abbrev SymbolId := Ident .symbol

/-- The handle that the action hook receives. -/
abbrev ActionId := Ident .action

namespace Ident

variable {kind : IdentKind}

/-- The identifier as an array index. -/
def index (id : Ident kind) : Nat := id.raw.toNat

/-- The identifier of an array index, modulo the width of the word. -/
def ofIndex (i : Nat) : Ident kind := ⟨UInt32.ofNat i⟩

/-- Identifiers are printed in decimal. -/
instance : ToString (Ident kind) := ⟨fun id => toString id.index⟩

theorem index_lt (id : Ident kind) : id.index < UInt32.size := id.raw.toNat_lt

@[simp]
theorem ofIndex_index (id : Ident kind) : ofIndex id.index = id := by
  simp [ofIndex, index]

theorem index_ofIndex {i : Nat} (h : i < UInt32.size) : (ofIndex i : Ident kind).index = i := by
  simpa [ofIndex, index] using h

theorem index_injective {a b : Ident kind} (h : a.index = b.index) : a = b := by
  rw [← ofIndex_index a, ← ofIndex_index b, h]

end Ident

end Munch
