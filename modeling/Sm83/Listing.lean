import Sm83.Instruction.Text
import Sm83.Memory.Basic
import Sm83.Operation.Decode
import Sm83.Symbol.Table

/-!
# Listings

A listing shows the operations found by going through memory from an address on, each where
the one before it ends.  Going stops at the end of the range and never wraps around.

## Main definitions

* `sweep` — the operations of a range with their addresses.
* `ListingLine`, `ListingLine.text` — the lines of a listing.
* `rangeListing` — the listing of a range.
* `programListing` — the listing of the boot ROM and the cartridge, symbol by symbol.
-/

namespace Sm83

theorem length_fetch_pos {β : Type u} [ByteSource β] (pc : UInt16) (src : β) :
    0 < (fetch pc src).1.length := by
  unfold fetch
  split
  split <;> simp

/-- The operations from address `pc` up to `stop`, behind those already found. -/
def sweepFrom (read : UInt16 → UInt8) (stop pc : Nat) (found : Array (UInt16 × Fetched)) :
    Array (UInt16 × Fetched) :=
  if pc < stop then
    let fetched := (fetch (UInt16.ofNat pc) read).1
    sweepFrom read stop (pc + fetched.length) (found.push (UInt16.ofNat pc, fetched))
  else
    found
termination_by stop - pc
decreasing_by
  have := length_fetch_pos (UInt16.ofNat pc) read
  omega

/-- The operations that start in a range, each where the one before it ends. -/
def sweep (read : UInt16 → UInt8) (start stop : UInt16) : Array (UInt16 × Fetched) :=
  sweepFrom read stop.toNat start.toNat #[]

/-- A line of a listing. -/
inductive ListingLine where
  /-- The title of a part. -/
  | title (name : String)
  /-- The name of a symbol. -/
  | symbol (name : String)
  /-- An operation, with the blanks before it. -/
  | operation (indent : Nat) (addr : UInt16) (fetched : Fetched)
  deriving DecidableEq, Repr

/-- The text of a line, with `label?` naming addresses. -/
def ListingLine.text (label? : UInt16 → Option String) : ListingLine → String
  | title name => name ++ ":"
  | symbol name => "  " ++ name ++ ":"
  | operation indent addr f =>
    String.ofList (List.replicate indent ' ') ++ "$" ++ hexWord addr ++ ": " ++
      f.instruction.textAt f.next label?

/-- The lines of a listing, each ended by a line feed. -/
def listingText (symbols : SymbolTable) (ls : Array ListingLine) : String :=
  ls.foldl (fun text l => text ++ l.text symbols.labelAt ++ "\n") ""

/-- The operations of a range as lines. -/
def rangeLines (m : Memory) (indent : Nat) (start stop : UInt16) : Array ListingLine :=
  (sweep m.read8 start stop).map fun (addr, f) => .operation indent addr f

/-- The listing of a range. -/
def rangeListing (m : Memory) (start stop : UInt16) : Array ListingLine :=
  rangeLines m 2 start stop

/-- The address behind a symbol's range, or the last address if that is too large. -/
def Symbol.lastStop (s : Symbol) : UInt16 :=
  UInt16.ofNat (min s.stop 0xFFFF)

/-- A symbol with the operations in its range. -/
def symbolLines (m : Memory) (s : Symbol) : Array ListingLine :=
  #[.symbol s.name] ++ rangeLines m 4 s.start s.lastStop

/-- The boot ROM, while it is mapped and no symbols cover it. -/
def bootLines (m : Memory) (symbols : SymbolTable) : Array ListingLine :=
  if m.bootMapped && !symbols.hasBoot then #[.title "BootRom"] ++ rangeLines m 2 0x0000 0x0100
  else #[]

/-- The cartridge: symbol by symbol, or from the entry point to the end of the first bank if
there are no symbols. -/
def cartridgeLines (m : Memory) (symbols : SymbolTable) : Array ListingLine :=
  #[.title "RomStart"] ++
    if symbols.isEmpty then rangeLines m 2 0x0100 0x4000
    else symbols.symbols.foldl (fun ls s => ls ++ symbolLines m s) #[]

/-- The listing of the boot ROM and the cartridge. -/
def programListing (m : Memory) (symbols : SymbolTable) : Array ListingLine :=
  bootLines m symbols ++ cartridgeLines m symbols

end Sm83
