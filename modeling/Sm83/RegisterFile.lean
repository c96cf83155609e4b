import Sm83.Register
import Sm83.Text.Numerals
import Sm83.Word

/-!
# The register file

Seven byte registers, four flags, stack pointer, program counter and the interrupt master
enable.  The flags are four Booleans; the byte `F` is a view of them, so its lower four bits
are zero in every register file.

## Main definitions

* `Flags`, `Flags.toByte`, `Flags.ofByte` — the flags and the byte `F` that shows them.
* `RegisterFile` — the registers; `RegisterFile.postBoot` is their content after the boot ROM.
* `RegisterFile.get?`, `RegisterFile.set` — access by byte operand.
* `RegisterFile.pair`, `RegisterFile.stackPair` and their setters — the 16-bit views.
* `RegisterFile.pointer` — the address named by a memory pointer, and the moved `HL`.
* `RegisterFile.summary` — the one-line display of the registers.
-/

namespace Sm83

/-- The four flags. -/
structure Flags where
  /-- The result was zero. -/
  z : Bool := false
  /-- The last operation subtracted. -/
  n : Bool := false
  /-- Carry out of the lower four bits. -/
  h : Bool := false
  /-- Carry out of the upper bit. -/
  c : Bool := false
  deriving DecidableEq, Repr

namespace Flags

/-- The byte `F`: the flags in its upper four bits, zeros below. -/
def toByte (f : Flags) : UInt8 :=
  (if f.z then 0x80 else 0) ||| (if f.n then 0x40 else 0) |||
    (if f.h then 0x20 else 0) ||| (if f.c then 0x10 else 0)

/-- The flags shown by the upper four bits of a byte; its lower bits are dropped. -/
def ofByte (b : UInt8) : Flags where
  z := b &&& 0x80 != 0
  n := b &&& 0x40 != 0
  h := b &&& 0x20 != 0
  c := b &&& 0x10 != 0

/-- The value of one flag. -/
def get (f : Flags) : Flag → Bool
  | .z => f.z
  | .n => f.n
  | .h => f.h
  | .c => f.c

/-- Change one flag. -/
def set (f : Flags) (flag : Flag) (on : Bool) : Flags :=
  match flag with
  | .z => { f with z := on }
  | .n => { f with n := on }
  | .h => { f with h := on }
  | .c => { f with c := on }

/-- Whether a condition holds under these flags. -/
def meets (f : Flags) : Cond → Bool
  | .nz => !f.z
  | .z => f.z
  | .nc => !f.c
  | .c => f.c

@[simp] theorem ofByte_toByte (f : Flags) : ofByte f.toByte = f := by
  obtain ⟨z, n, h, c⟩ := f
  cases z <;> cases n <;> cases h <;> cases c <;> rfl

/-- The lower four bits of `F` are zero. -/
theorem toByte_and_low (f : Flags) : f.toByte &&& 0x0F = 0 := by
  obtain ⟨z, n, h, c⟩ := f
  cases z <;> cases n <;> cases h <;> cases c <;> rfl

/-- The byte that shows the flags of a byte: its lower four bits are dropped. -/
theorem toByte_ofByte (b : UInt8) : (ofByte b).toByte = b &&& 0xF0 := by
  have hall : ∀ i : Fin 256, (ofByte (UInt8.ofNat i)).toByte = UInt8.ofNat i &&& 0xF0 := by
    decide +kernel
  simpa using hall b.toFin

end Flags

/-- The registers of the processor.  All are zero unless stated. -/
structure RegisterFile where
  a : UInt8 := 0
  flags : Flags := {}
  b : UInt8 := 0
  c : UInt8 := 0
  d : UInt8 := 0
  e : UInt8 := 0
  h : UInt8 := 0
  l : UInt8 := 0
  /-- The stack pointer. -/
  sp : UInt16 := 0
  /-- The program counter. -/
  pc : UInt16 := 0
  /-- The interrupt master enable. -/
  ime : Bool := false
  deriving DecidableEq, Repr

namespace RegisterFile

/-- The registers as the boot ROM leaves them. -/
def postBoot : RegisterFile where
  a := 0x01
  flags := .ofByte 0xB0
  b := 0x00
  c := 0x13
  d := 0x00
  e := 0xD8
  h := 0x01
  l := 0x4D
  sp := 0xFFFE
  pc := 0x0100
  ime := false

/-- The flags as the byte `F`. -/
def f (r : RegisterFile) : UInt8 :=
  r.flags.toByte

/-- Write the byte `F`; only its upper four bits count. -/
def setF (r : RegisterFile) (v : UInt8) : RegisterFile :=
  { r with flags := .ofByte v }

/-- The content of a byte register; `none` for the cell at `HL`, which is in memory. -/
def get? (r : RegisterFile) : Reg8 → Option UInt8
  | .b => some r.b
  | .c => some r.c
  | .d => some r.d
  | .e => some r.e
  | .h => some r.h
  | .l => some r.l
  | .atHL => none
  | .a => some r.a

/-- Write a byte register.  The cell at `HL` is in memory, so writing it changes no
register. -/
def set (r : RegisterFile) (reg : Reg8) (v : UInt8) : RegisterFile :=
  match reg with
  | .b => { r with b := v }
  | .c => { r with c := v }
  | .d => { r with d := v }
  | .e => { r with e := v }
  | .h => { r with h := v }
  | .l => { r with l := v }
  | .atHL => r
  | .a => { r with a := v }

/-- The pair `AF`. -/
def af (r : RegisterFile) : UInt16 :=
  word r.a r.f

/-- The pair `BC`. -/
def bc (r : RegisterFile) : UInt16 :=
  word r.b r.c

/-- The pair `DE`. -/
def de (r : RegisterFile) : UInt16 :=
  word r.d r.e

/-- The pair `HL`. -/
def hl (r : RegisterFile) : UInt16 :=
  word r.h r.l

/-- Write the pair `AF`; the lower four bits are dropped. -/
def setAF (r : RegisterFile) (v : UInt16) : RegisterFile :=
  { r with a := highByte v, flags := .ofByte (lowByte v) }

/-- Write the pair `BC`. -/
def setBC (r : RegisterFile) (v : UInt16) : RegisterFile :=
  { r with b := highByte v, c := lowByte v }

/-- Write the pair `DE`. -/
def setDE (r : RegisterFile) (v : UInt16) : RegisterFile :=
  { r with d := highByte v, e := lowByte v }

/-- Write the pair `HL`. -/
def setHL (r : RegisterFile) (v : UInt16) : RegisterFile :=
  { r with h := highByte v, l := lowByte v }

/-- The content of a register pair. -/
def pair (r : RegisterFile) : Pair → UInt16
  | .bc => r.bc
  | .de => r.de
  | .hl => r.hl
  | .sp => r.sp

/-- Write a register pair. -/
def setPair (r : RegisterFile) (p : Pair) (v : UInt16) : RegisterFile :=
  match p with
  | .bc => r.setBC v
  | .de => r.setDE v
  | .hl => r.setHL v
  | .sp => { r with sp := v }

/-- The word that `PUSH` stores. -/
def stackPair (r : RegisterFile) : StackPair → UInt16
  | .bc => r.bc
  | .de => r.de
  | .hl => r.hl
  | .af => r.af

/-- Write the pair that `POP` loads. -/
def setStackPair (r : RegisterFile) (p : StackPair) (v : UInt16) : RegisterFile :=
  match p with
  | .bc => r.setBC v
  | .de => r.setDE v
  | .hl => r.setHL v
  | .af => r.setAF v

/-- The address that a memory pointer names, and the registers after its use: `HL` moves by
one where the pointer says so, and the address is that from before the move. -/
def pointer (r : RegisterFile) : Pointer → UInt16 × RegisterFile
  | .bc => (r.bc, r)
  | .de => (r.de, r)
  | .hlInc => (r.hl, r.setHL (r.hl + 1))
  | .hlDec => (r.hl, r.setHL (r.hl - 1))

/-- The registers on one line, in upper-case hexadecimal. -/
def summary (r : RegisterFile) : String :=
  "AF:" ++ hexWord r.af ++ " BC:" ++ hexWord r.bc ++ " DE:" ++ hexWord r.de ++
    " HL:" ++ hexWord r.hl ++ " PC:" ++ hexWord r.pc ++ " SP:" ++ hexWord r.sp ++
    " IME:" ++ (if r.ime then "1" else "0")

end RegisterFile

end Sm83
