import Sm83.Memory.Basic
import Sm83.Proofs.Operation.OpcodeTables

/-!
# Operands in memory

The operations on a byte take the cell at `HL` for an operand as they take a register. This file
ties the two: an operation on the cell is the operation on the register `B` with the byte of the
cell in it, and a write of what is then in `B`, if the operand is also the destination. The cell is
read once and, if at all, written once, both at the `HL` from before the operation. So this holds
also where reads and writes have effects of their own, as they have in the I/O page.

## Main definitions

* `ByteOperation` — the operations that take a register or the cell at `HL` for their operand.
* `ByteOperation.on` — the instruction for an operand.
* `ByteOperation.modifies` — whether the operand is the destination.

## Main results

* `ByteOperation.effect_atHL`, `ByteOperation.clocks_atHL` — effect and clocks on the cell by those
  on the register, on any bus.
* `memory_operand_acts_through_register` — the same for instructions and memory.
-/

namespace Sm83

/-- The operations that take a register or the cell at `HL` for their operand. The number of a bit
is any byte, of which the lowest three bits count. -/
inductive ByteOperation where
  | alu (op : AluOp)
  | inc
  | dec
  | shift (op : Shift)
  | bit (i : UInt8)
  | res (i : UInt8)
  | set (i : UInt8)
  deriving DecidableEq, Repr

namespace ByteOperation

/-- The instruction for an operand. -/
def on (f : ByteOperation) (r : Reg8) : Instruction :=
  match f with
  | alu op => ⟨op.mnemonic, some (.reg8 .a), some (.reg8 r)⟩
  | inc => ⟨.inc, some (.reg8 r), none⟩
  | dec => ⟨.dec, some (.reg8 r), none⟩
  | shift op => ⟨op.mnemonic, some (.reg8 r), none⟩
  | bit i => ⟨.bit, some (.bit i), some (.reg8 r)⟩
  | res i => ⟨.res, some (.bit i), some (.reg8 r)⟩
  | set i => ⟨.set, some (.bit i), some (.reg8 r)⟩

/-- The operation for an operand. -/
def operation (f : ByteOperation) (r : Reg8) : Operation :=
  match f with
  | alu op => .alu op r
  | inc => .inc r
  | dec => .dec r
  | shift op => .shift op r
  | bit i => .bit (threeBits i.toNat) r
  | res i => .res (threeBits i.toNat) r
  | set i => .set (threeBits i.toNat) r

/-- Whether the operand is also the destination. -/
def modifies : ByteOperation → Bool
  | alu _ | bit _ => false
  | inc | dec | shift _ | res _ | set _ => true

theorem operation?_on (f : ByteOperation) (r : Reg8) :
    (f.on r).operation? = some (f.operation r) := by
  cases f with
  | alu op | shift op => cases op <;> rfl
  | _ => rfl

variable {β : Type u} [Bus β]

/-- The instruction can be executed on every operand. -/
theorem execute_on (f : ByteOperation) (r : Reg8) (s : Core β) :
    (f.on r).execute s =
      (.ok ⟨(f.operation r).clocks s.regs.flags, .none⟩, (f.operation r).effect s) := by
  rw [Instruction.execute, operation?_on]
  cases f <;> rfl

/-- On the cell an operation takes a machine cycle more for each access to it. -/
theorem clocks_atHL (f : ByteOperation) (flags flags' : Flags) :
    (f.operation .atHL).clocks flags =
      (f.operation .b).clocks flags' + if f.modifies then 8 else 4 := by
  cases f <;> rfl

/-- **An operation on the cell** reads it, does on its byte what it does on the register `B`, and
writes the result back if the operand is the destination. -/
theorem effect_atHL (f : ByteOperation) (s : Core β) :
    let read := ByteSource.read s.regs.hl s.bus
    let t := (f.operation .b).effect { s with regs := { s.regs with b := read.1 } }
    (f.operation .atHL).effect s =
      ⟨{ s.regs with a := t.regs.a, flags := t.regs.flags },
        if f.modifies then Bus.write s.regs.hl t.regs.b read.2 else read.2⟩ := by
  cases f <;> rfl

end ByteOperation

/-- **An operand in memory acts through a register.** Let `v` be the byte at `HL`, wherever that
leads in either mode. Every operation on a byte can be executed on `[HL]` and on `B`. On `[HL]` it
leaves the accumulator and the flags as it leaves them on `B` with `v` in `B`, and all other
registers, `B` included, as they were. What it would leave in `B` is written at `HL`, if the operand
is the destination; else memory is as it was. It takes the clocks of the register form and four more
for each access. -/
theorem memory_operand_acts_through_register (f : ByteOperation) (s : Core Memory) :
    let v := s.bus.read8 s.regs.hl
    ∃ o t, (f.on .b).execute { s with regs := { s.regs with b := v } } = (.ok o, t) ∧
      (f.on .atHL).execute s =
        (.ok ⟨o.clocks + if f.modifies then 8 else 4, o.control⟩,
          ⟨{ s.regs with a := t.regs.a, flags := t.regs.flags },
            if f.modifies then s.bus.write8 s.regs.hl t.regs.b else s.bus⟩) := by
  intro v
  refine ⟨_, _, f.execute_on .b _, ?_⟩
  rw [f.execute_on .atHL, f.effect_atHL, f.clocks_atHL]
  rfl

end Sm83
