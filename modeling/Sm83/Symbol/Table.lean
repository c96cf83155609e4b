import Sm83.Symbol.Basic
import Sm83.Symbol.Bisection
import Sm83.Text.Lines

/-!
# Symbol tables

Symbols in the order of their addresses; those of one address stay in the order in which they
were read.

## Main definitions

* `SymbolTable` — the symbols.
* `SymbolTable.extend` — the table with the symbols of a file added.
* `SymbolTable.labelAt`, `SymbolTable.containing` — look-up by address.
-/

namespace Sm83

/-- Symbols in the order of their addresses. -/
structure SymbolTable where
  symbols : List Symbol := []
  deriving DecidableEq, Repr

/-- How many symbols a text added, and how many of its lines could not be understood. -/
structure SymbolReport where
  added : Nat
  skipped : Nat
  deriving DecidableEq, Repr

/-- Put a symbol in front of symbols with their lengths. It ends where the next symbol of its bank
starts; the starts are given by bank, the next ones first, and its own is added to them. Without a
next symbol its length is zero. -/
def Symbol.measureOnto (s : Symbol) (sofar : List (Bank × UInt16) × List Symbol) :
    List (Bank × UInt16) × List Symbol :=
  let (starts, following) := sofar
  let length := (starts.lookup s.bank).elim 0 (· - s.start)
  ((s.bank, s.start) :: starts, { s with length := length } :: following)

/-- Give every symbol of an ordered list its length, the last one first. -/
def measured (symbols : List Symbol) : List Symbol :=
  (symbols.foldr Symbol.measureOnto ([], [])).2

namespace SymbolTable

/-- Order symbols by address and measure their lengths. -/
def ofSymbols (symbols : List Symbol) : SymbolTable where
  symbols := measured (symbols.mergeSort fun s t => s.start ≤ t.start)

/-- The table with the symbols of a text added, and what became of the text's lines. -/
def extend (t : SymbolTable) (text : List Char) : SymbolReport × SymbolTable :=
  let read := (lines text).map SymbolLine.read
  let added := read.filterMap SymbolLine.symbol?
  (⟨added.length, read.count .malformed⟩, ofSymbols (t.symbols ++ added))

/-- The table of the symbols of a text. -/
def parse (text : List Char) : SymbolReport × SymbolTable :=
  ({} : SymbolTable).extend text

/-- Whether there are no symbols. -/
def isEmpty (t : SymbolTable) : Bool :=
  t.symbols.isEmpty

/-- Whether the boot ROM has symbols. -/
def hasBoot (t : SymbolTable) : Bool :=
  t.symbols.any (·.bank == .boot)

/-- The name of the first symbol that starts at an address. -/
def labelAt (t : SymbolTable) (addr : UInt16) : Option String :=
  let before := partitionPoint (·.start < addr) t.symbols
  (t.symbols[before]?.filter (·.start == addr)).map Symbol.name

/-- The last symbol whose range holds an address. -/
def containing (t : SymbolTable) (addr : UInt16) : Option Symbol :=
  let upto := partitionPoint (·.start ≤ addr) t.symbols
  (t.symbols.take upto).reverse.find? (·.covers addr)

end SymbolTable

end Sm83
