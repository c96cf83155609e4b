import Sm83.Text.Lines
import Sm83.Text.Numerals

/-!
# Symbols

A symbol names an address in one bank of memory.  It covers the addresses up to the next symbol
of its bank.

A line of a symbol file names one symbol: the bank, a colon, the start address, a blank and the
name.  Bank and address are hexadecimal; the boot ROM's bank is the word `BOOT` in any case.  Lines
without text and lines that begin with a semicolon say nothing.

## Main definitions

* `Bank` — the boot ROM or a numbered bank.
* `Symbol`, `Symbol.covers` — a name with its bank and range.
* `maxNameBytes` — the length to which names are cut.
* `Symbol.ofLine?` — the symbol that a line names.
* `SymbolLine`, `SymbolLine.read` — what a line is.
-/

namespace Sm83

/-- The bank in which a symbol lies. -/
inductive Bank where
  | boot
  | rom (n : UInt8)
  deriving DecidableEq, Repr

/-- A name for an address. -/
structure Symbol where
  name : String
  bank : Bank
  start : UInt16
  /-- The number of addresses covered: up to the next symbol of the bank, or none if this is the
  last. -/
  length : UInt16 := 0
  deriving DecidableEq, Repr

/-- The address behind a symbol's range; it can be `0x10000`. -/
def Symbol.stop (s : Symbol) : Nat :=
  s.start.toNat + s.length.toNat

/-- Whether an address is in a symbol's range. -/
def Symbol.covers (s : Symbol) (addr : UInt16) : Bool :=
  decide (s.start.toNat ≤ addr.toNat ∧ addr.toNat < s.stop)

/-! ### Lines of a symbol file -/

/-- Names are cut to this number of bytes. -/
def maxNameBytes : Nat := 31

/-- The bank written before the colon. -/
def Bank.read? (cs : List Char) : Option Bank :=
  if cs.map Char.toUpper = ['B', 'O', 'O', 'T'] then some .boot
  else (readHex? 0x100 cs).map fun n => .rom (UInt8.ofNat n)

/-- The symbol with the given place and name, both as written. -/
def Symbol.ofColumns? (place name : List Char) : Option Symbol :=
  match place.span (· != ':') with
  | (_, []) => none
  | (bank, _ :: start) => do
    let bank ← Bank.read? bank
    let start ← readHex? 0x10000 start
    if name.isEmpty then none
    else some ⟨String.ofList (clip maxNameBytes name), bank, UInt16.ofNat start, 0⟩

/-- The symbol that a line without blanks at its ends names. -/
def Symbol.ofLine? (line : List Char) : Option Symbol :=
  match line.span (!isBlank ·) with
  | (_, []) => none
  | (place, _ :: name) => Symbol.ofColumns? place (trim name)

/-- What a line of a symbol file is. -/
inductive SymbolLine where
  /-- It says nothing. -/
  | empty
  /-- It names a symbol. -/
  | named (s : Symbol)
  /-- It cannot be understood. -/
  | malformed
  deriving DecidableEq, Repr

/-- Understand a line. -/
def SymbolLine.read (line : List Char) : SymbolLine :=
  match trim line with
  | [] => .empty
  | ';' :: _ => .empty
  | line => (Symbol.ofLine? line).elim .malformed .named

/-- The symbol that a line names, if it does. -/
def SymbolLine.symbol? : SymbolLine → Option Symbol
  | .named s => some s
  | _ => none

end Sm83
