import Sm83.Operation.Basic
import Sm83.RegisterFile

/-!
# Byte and word arithmetic

The results and flags of the arithmetic operations, as functions of their operands.  Carries
are read off the exact sums and differences of the numbers that the bytes stand for.

## Main definitions

* `AluOp.apply` — an operation of the accumulator with a byte.
* `Shift.apply` — a rotate or shift.
* `increment`, `decrement` — steps of a byte.
* `decimalAdjust` — the correction to packed decimal.
* `addWords`, `addDisplacement` — the additions of words.
-/

namespace Sm83

/-- The sum of two bytes and a carry, with its flags. -/
def addBytes (x y : UInt8) (carry : Bool) : UInt8 × Flags :=
  let sum := x + y + bitOf carry
  (sum, {
    z := sum == 0
    n := false
    h := decide (16 ≤ x.toNat % 16 + y.toNat % 16 + carry.toNat)
    c := decide (256 ≤ x.toNat + y.toNat + carry.toNat) })

/-- The difference of two bytes and a borrow, with its flags. -/
def subBytes (x y : UInt8) (borrow : Bool) : UInt8 × Flags :=
  let difference := x - y - bitOf borrow
  (difference, {
    z := difference == 0
    n := true
    h := decide (x.toNat % 16 < y.toNat % 16 + borrow.toNat)
    c := decide (x.toNat < y.toNat + borrow.toNat) })

/-- The flags of a bitwise operation. -/
def bitwiseFlags (v : UInt8) (h : Bool) : Flags where
  z := v == 0
  n := false
  h := h
  c := false

/-- Combine the accumulator `a` with a byte: the new accumulator and the flags.  `CP` compares
only and keeps the accumulator. -/
def AluOp.apply (op : AluOp) (a v : UInt8) (carry : Bool) : UInt8 × Flags :=
  match op with
  | .add => addBytes a v false
  | .adc => addBytes a v carry
  | .sub => subBytes a v false
  | .sbc => subBytes a v carry
  | .and => (a &&& v, bitwiseFlags (a &&& v) true)
  | .xor => (a ^^^ v, bitwiseFlags (a ^^^ v) false)
  | .or => (a ||| v, bitwiseFlags (a ||| v) false)
  | .cp => (a, (subBytes a v false).2)

/-- The topmost bit of a byte. -/
def topBit (v : UInt8) : Bool :=
  decide (128 ≤ v.toNat)

/-- The lowest bit of a byte. -/
def lowBit (v : UInt8) : Bool :=
  v.toNat % 2 == 1

/-- Rotate or shift a byte: the result and the bit that fell out. -/
def Shift.apply (op : Shift) (v : UInt8) (carry : Bool) : UInt8 × Bool :=
  match op with
  | .rlc => (v * 2 + bitOf (topBit v), topBit v)
  | .rrc => (v / 2 + bitOf (lowBit v) * 128, lowBit v)
  | .rl => (v * 2 + bitOf carry, topBit v)
  | .rr => (v / 2 + bitOf carry * 128, lowBit v)
  | .sla => (v * 2, topBit v)
  | .sra => (v / 2 + bitOf (topBit v) * 128, lowBit v)
  | .swap => (v * 16 + v / 16, false)
  | .srl => (v / 2, lowBit v)

/-- A byte plus one; the carry flag is kept. -/
def increment (v : UInt8) (flags : Flags) : UInt8 × Flags :=
  (v + 1, { flags with z := v + 1 == 0, n := false, h := v.toNat % 16 == 15 })

/-- A byte minus one; the carry flag is kept. -/
def decrement (v : UInt8) (flags : Flags) : UInt8 × Flags :=
  (v - 1, { flags with z := v - 1 == 0, n := true, h := v.toNat % 16 == 0 })

/-- Correct a byte to two packed decimal digits after an addition or, if the subtract flag is
set, a subtraction. -/
def decimalAdjust (a : UInt8) (flags : Flags) : UInt8 × Flags :=
  let low := flags.h || (!flags.n && decide (9 < a.toNat % 16))
  let high := flags.c || (!flags.n && decide (0x99 < a.toNat))
  let correction : UInt8 := (if low then 0x06 else 0) + (if high then 0x60 else 0)
  let a := if flags.n then a - correction else a + correction
  (a, { z := a == 0, n := flags.n, h := false, c := high })

/-- The sum of two words.  Half carry is that out of bit 11; the zero flag is kept. -/
def addWords (x y : UInt16) (flags : Flags) : UInt16 × Flags :=
  (x + y, {
    z := flags.z
    n := false
    h := decide (4096 ≤ x.toNat % 4096 + y.toNat % 4096)
    c := decide (65536 ≤ x.toNat + y.toNat) })

/-- A word plus a displacement.  The carries are those of the lower bytes, both taken without
sign. -/
def addDisplacement (x : UInt16) (e : Int8) : UInt16 × Flags :=
  let low := e.toUInt8.toNat
  (displaced x e, {
    z := false
    n := false
    h := decide (16 ≤ x.toNat % 16 + low % 16)
    c := decide (256 ≤ x.toNat % 256 + low) })

end Sm83
