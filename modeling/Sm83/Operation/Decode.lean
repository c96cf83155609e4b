import Sm83.Bus
import Sm83.Operation.Basic

/-!
# Decoding

The first byte of an encoded operation alone says how many bytes follow.  `template` reads it
as three fields: the block in bits 6 and 7, the row in bits 3 to 5 and the column in bits 0 to
2.  The operations on bits and the rotates of any register form a second table behind the byte
`0xCB`.

## Main definitions

* `Template` — an operation with a hole for the bytes that follow its opcode.
* `template`, `extended` — the two opcode tables.
* `Fetched`, `fetch` — the operation at an address.
* `decodeSlice` — the operation at the start of a list of bytes.
-/

namespace Sm83

/-- What an opcode says before the bytes that follow it are known. -/
inductive Template where
  /-- Nothing follows. -/
  | plain (op : Operation)
  /-- A byte follows. -/
  | byte (op : UInt8 → Operation)
  /-- A word follows, lower byte first. -/
  | word (op : UInt16 → Operation)

/-- Bits 0 to 2 of an opcode. -/
def column (opcode : UInt8) : Fin 8 :=
  threeBits opcode.toNat

/-- Bits 3 to 5 of an opcode. -/
def row (opcode : UInt8) : Fin 8 :=
  threeBits (opcode.toNat / 8)

/-- Bits 6 and 7 of an opcode. -/
def block (opcode : UInt8) : Fin 4 :=
  twoBits (opcode.toNat / 64)

/-- The upper two bits of a row. -/
def rowPair (y : Fin 8) : Fin 4 :=
  twoBits (y.val / 2)

/-- The lowest bit of a row. -/
def rowOdd (y : Fin 8) : Bool :=
  y.val % 2 == 1

/-- The second opcode table. -/
def extended (opcode : UInt8) : Operation :=
  let y := row opcode
  let r := Reg8.ofBits (column opcode)
  match block opcode with
  | 0 => .shift (Shift.ofBits y) r
  | 1 => .bit y r
  | 2 => .res y r
  | 3 => .set y r

/-- The operations on the accumulator and the flags alone. -/
def accumulatorOperation : Fin 8 → Operation
  | 0 => .rotateA .rlc
  | 1 => .rotateA .rrc
  | 2 => .rotateA .rl
  | 3 => .rotateA .rr
  | 4 => .daa
  | 5 => .cpl
  | 6 => .scf
  | 7 => .ccf

/-- The first column of the first block. -/
def controlTemplate : (y : Fin 8) → Template
  | 0 => .plain .nop
  | 1 => .word .storeSP
  | 2 => .byte fun _ => .stop
  | 3 => .byte fun n => .jr none n.toInt8
  | 4 => .byte fun n => .jr (some .nz) n.toInt8
  | 5 => .byte fun n => .jr (some .z) n.toInt8
  | 6 => .byte fun n => .jr (some .nc) n.toInt8
  | 7 => .byte fun n => .jr (some .c) n.toInt8

/-- The block of loads of constants, of steps, and of operations on the accumulator. -/
def firstBlock (y z : Fin 8) : Template :=
  match z with
  | 0 => controlTemplate y
  | 1 =>
    let p := Pair.ofBits (rowPair y)
    if rowOdd y then .plain (.addHL p) else .word (.loadPair p)
  | 2 =>
    let p := Pointer.ofBits (rowPair y)
    if rowOdd y then .plain (.loadAt p) else .plain (.storeAt p)
  | 3 =>
    let p := Pair.ofBits (rowPair y)
    if rowOdd y then .plain (.decPair p) else .plain (.incPair p)
  | 4 => .plain (.inc (Reg8.ofBits y))
  | 5 => .plain (.dec (Reg8.ofBits y))
  | 6 => .byte (.loadImm (Reg8.ofBits y))
  | 7 => .plain (accumulatorOperation y)

/-- The first column of the last block: conditional returns and accesses to the last page. -/
def returnTemplate : (y : Fin 8) → Template
  | 0 => .plain (.ret (some .nz))
  | 1 => .plain (.ret (some .z))
  | 2 => .plain (.ret (some .nc))
  | 3 => .plain (.ret (some .c))
  | 4 => .byte .storeHigh
  | 5 => .byte fun n => .addSP n.toInt8
  | 6 => .byte .loadHigh
  | 7 => .byte fun n => .loadHLSP n.toInt8

/-- The second column of the last block: pops, returns and moves of `HL`. -/
def popTemplate (y : Fin 8) : Template :=
  if rowOdd y then
    match rowPair y with
    | 0 => .plain (.ret none)
    | 1 => .plain .reti
    | 2 => .plain .jpHL
    | 3 => .plain .loadSPHL
  else
    .plain (.pop (StackPair.ofBits (rowPair y)))

/-- The third column of the last block: conditional jumps and loads at constant addresses. -/
def jumpTemplate : (y : Fin 8) → Template
  | 0 => .word (.jp (some .nz))
  | 1 => .word (.jp (some .z))
  | 2 => .word (.jp (some .nc))
  | 3 => .word (.jp (some .c))
  | 4 => .plain .storeHighC
  | 5 => .word .storeAbs
  | 6 => .plain .loadHighC
  | 7 => .word .loadAbs

/-- The fifth column of the last block: conditional calls, where there is one. -/
def callTemplate? : (y : Fin 8) → Option Template
  | 0 => some (.word (.call (some .nz)))
  | 1 => some (.word (.call (some .z)))
  | 2 => some (.word (.call (some .nc)))
  | 3 => some (.word (.call (some .c)))
  | _ => none

/-- The block of control flow.  Some of its places have no meaning. -/
def lastBlock? (y z : Fin 8) : Option Template :=
  match z with
  | 0 => some (returnTemplate y)
  | 1 => some (popTemplate y)
  | 2 => some (jumpTemplate y)
  | 3 =>
    match y with
    | 0 => some (.word (.jp none))
    | 1 => some (.byte extended)
    | 6 => some (.plain .di)
    | 7 => some (.plain .ei)
    | _ => none
  | 4 => callTemplate? y
  | 5 =>
    if rowOdd y then
      if y.val = 1 then some (.word (.call none)) else none
    else
      some (.plain (.push (StackPair.ofBits (rowPair y))))
  | 6 => some (.byte (.aluImm (AluOp.ofBits y)))
  | 7 => some (.plain (.rst (UInt8.ofNat (8 * y.val))))

/-- The first opcode table.  The place of a load of the cell at `HL` into itself is taken by
`HALT`, and a place without a meaning stands for its own byte. -/
def template (opcode : UInt8) : Template :=
  let y := row opcode
  let z := column opcode
  match block opcode with
  | 0 => firstBlock y z
  | 1 => if opcode = 0x76 then .plain .halt else .plain (.load (Reg8.ofBits y) (Reg8.ofBits z))
  | 2 => .plain (.alu (AluOp.ofBits y) (Reg8.ofBits z))
  | 3 => (lastBlock? y z).getD (.plain (.invalid opcode))

/-- An operation found in memory. -/
structure Fetched where
  operation : Operation
  /-- The number of bytes of the encoding. -/
  length : Nat
  /-- The address behind the encoding, modulo `2 ^ 16`. -/
  next : UInt16
  deriving DecidableEq, Repr

/-- The assembly form of what was found. -/
def Fetched.instruction (f : Fetched) : Instruction :=
  f.operation.toInstruction

/-- The operation encoded at `pc`, and the source after the reads. -/
@[specialize] def fetch {β : Type u} [ByteSource β] (pc : UInt16) (src : β) : Fetched × β :=
  let (opcode, src) := ByteSource.read pc src
  match template opcode with
  | .plain op => (⟨op, 1, pc + 1⟩, src)
  | .byte op =>
    let (n, src) := ByteSource.read (pc + 1) src
    (⟨op n, 2, pc + 2⟩, src)
  | .word op =>
    let (w, src) := ByteSource.readWord (pc + 1) src
    (⟨op w, 3, pc + 3⟩, src)

/-- A list of bytes laid out from an address on; behind its end, zeros are read. -/
def bytesAt (bytes : List UInt8) (start addr : UInt16) : UInt8 :=
  bytes.getD (addr - start).toNat 0

/-- The operation encoded at the start of a list of bytes that lies at `pc`. -/
def decodeSlice (bytes : List UInt8) (pc : UInt16) : Fetched :=
  (fetch pc (bytesAt bytes pc)).1

end Sm83
