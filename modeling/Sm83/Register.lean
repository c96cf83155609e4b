/-!
# Register operands

The names by which instructions select registers.  Every family is numbered by the bit field
that encodes it in an opcode, in the order of its constructors.

## Main definitions

* `Reg8` — the byte operands, seven registers and the memory cell at `HL`.
* `Pair` — the register pairs of loads and 16-bit arithmetic.
* `Pointer` — the register pairs used as memory pointers.
* `StackPair` — the register pairs that can be pushed and popped.
* `Cond` — the conditions of jumps, calls and returns.
* `Flag` — the four flags.
-/

namespace Sm83

/-- A byte operand.  `atHL` is not a register but the memory cell whose address is in `HL`. -/
inductive Reg8 where
  | b | c | d | e | h | l | atHL | a
  deriving DecidableEq, Repr

/-- A register pair as operand of loads and of 16-bit arithmetic. -/
inductive Pair where
  | bc | de | hl | sp
  deriving DecidableEq, Repr

/-- A register pair used as a memory pointer.  `hlInc` and `hlDec` move `HL` by one after the
access. -/
inductive Pointer where
  | bc | de | hlInc | hlDec
  deriving DecidableEq, Repr

/-- A register pair as operand of `PUSH` and `POP`. -/
inductive StackPair where
  | bc | de | hl | af
  deriving DecidableEq, Repr

/-- The condition of a jump, call or return. -/
inductive Cond where
  | nz | z | nc | c
  deriving DecidableEq, Repr

/-- A flag: zero, subtract, half carry or carry. -/
inductive Flag where
  | z | n | h | c
  deriving DecidableEq, Repr

/-- The byte operand encoded by a three-bit field. -/
def Reg8.ofBits : Fin 8 → Reg8
  | 0 => .b
  | 1 => .c
  | 2 => .d
  | 3 => .e
  | 4 => .h
  | 5 => .l
  | 6 => .atHL
  | 7 => .a

/-- The register pair encoded by a two-bit field. -/
def Pair.ofBits : Fin 4 → Pair
  | 0 => .bc
  | 1 => .de
  | 2 => .hl
  | 3 => .sp

/-- The memory pointer encoded by a two-bit field. -/
def Pointer.ofBits : Fin 4 → Pointer
  | 0 => .bc
  | 1 => .de
  | 2 => .hlInc
  | 3 => .hlDec

/-- The stack pair encoded by a two-bit field. -/
def StackPair.ofBits : Fin 4 → StackPair
  | 0 => .bc
  | 1 => .de
  | 2 => .hl
  | 3 => .af

/-- The condition encoded by a two-bit field. -/
def Cond.ofBits : Fin 4 → Cond
  | 0 => .nz
  | 1 => .z
  | 2 => .nc
  | 3 => .c

end Sm83
