import Sm83.Arithmetic
import Sm83.Bus

/-!
# Executing operations

What an operation does to the registers and the bus, how many clocks it takes, and what it asks
of the processor's latches are three functions.  They are put together by
`Operation.execute`, which expects the program counter behind the encoding.  Clocks come
four to a machine cycle.

## Main definitions

* `Core` — registers and bus.
* `Operation.effect`, `Operation.clocks`, `Operation.control` — the three functions.
* `CpuError` — the reasons for which nothing can be executed.
* `Operation.execute`, `Instruction.execute` — execution with its outcome.

## Main results

* `Instruction.execute_toInstruction` — an operation and its assembly form do the same.
-/

namespace Sm83

/-- What an operation acts on: the registers and the bus. -/
structure Core (β : Type u) where
  regs : RegisterFile
  bus : β

namespace Core

variable {β : Type u} [Bus β]

/-- Read a byte of memory. -/
@[inline] def readAt (s : Core β) (addr : UInt16) : UInt8 × Core β :=
  let (v, bus) := ByteSource.read addr s.bus
  (v, { s with bus := bus })

/-- Write a byte of memory. -/
@[inline] def writeAt (s : Core β) (addr : UInt16) (v : UInt8) : Core β :=
  { s with bus := Bus.write addr v s.bus }

/-- Read a byte operand. -/
@[inline] def readOperand (s : Core β) (r : Reg8) : UInt8 × Core β :=
  match s.regs.get? r with
  | some v => (v, s)
  | none => s.readAt s.regs.hl

/-- Write a byte operand. -/
@[inline] def writeOperand (s : Core β) (r : Reg8) (v : UInt8) : Core β :=
  match r with
  | .atHL => s.writeAt s.regs.hl v
  | r => { s with regs := s.regs.set r v }

/-- Change the registers. -/
@[inline] def modifyRegs (s : Core β) (f : RegisterFile → RegisterFile) : Core β :=
  { s with regs := f s.regs }

/-- Store a word below the stack pointer, the higher byte first. -/
@[inline] def push (s : Core β) (w : UInt16) : Core β :=
  let s := s.modifyRegs fun r => { r with sp := r.sp - 1 }
  let s := s.writeAt s.regs.sp (highByte w)
  let s := s.modifyRegs fun r => { r with sp := r.sp - 1 }
  s.writeAt s.regs.sp (lowByte w)

/-- Take the word at the stack pointer. -/
@[inline] def pop (s : Core β) : UInt16 × Core β :=
  let (low, s) := s.readAt s.regs.sp
  let s := s.modifyRegs fun r => { r with sp := r.sp + 1 }
  let (high, s) := s.readAt s.regs.sp
  let s := s.modifyRegs fun r => { r with sp := r.sp + 1 }
  (word high low, s)

/-- Continue at an address. -/
@[inline] def jump (s : Core β) (target : UInt16) : Core β :=
  s.modifyRegs fun r => { r with pc := target }

/-- Push the program counter and continue at an address. -/
@[inline] def call (s : Core β) (target : UInt16) : Core β :=
  (s.push s.regs.pc).jump target

/-- Continue at the address on the stack. -/
@[inline] def ret (s : Core β) : Core β :=
  let (target, s) := s.pop
  s.jump target

/-- Combine the accumulator with a byte. -/
@[inline] def combine (s : Core β) (op : AluOp) (v : UInt8) : Core β :=
  s.modifyRegs fun r =>
    let (a, flags) := op.apply r.a v r.flags.c
    { r with a := a, flags := flags }

end Core

/-- The address of a cell in the last page. -/
@[inline] def highAddress (n : UInt8) : UInt16 :=
  word 0xFF n

namespace Flags

/-- Whether a jump, call or return is taken; without a condition it always is. -/
@[inline] def allow (f : Flags) : Option Cond → Bool
  | none => true
  | some cc => f.meets cc

end Flags

namespace Operation

variable {β : Type u} [Bus β]

/-- What an operation does to the registers and the bus.  The program counter is behind the
encoding. -/
@[specialize] def effect (op : Operation) (s : Core β) : Core β :=
  match op with
  | nop => s
  | stop => s
  | halt => s
  | di => s.modifyRegs fun r => { r with ime := false }
  | ei => s
  | load dst src =>
    let (v, s) := s.readOperand src
    s.writeOperand dst v
  | loadImm dst n => s.writeOperand dst n
  | storeAt p =>
    let (addr, regs) := s.regs.pointer p
    { s with regs := regs }.writeAt addr s.regs.a
  | loadAt p =>
    let (addr, regs) := s.regs.pointer p
    let (v, s) := { s with regs := regs }.readAt addr
    s.modifyRegs fun r => { r with a := v }
  | storeAbs addr => s.writeAt addr s.regs.a
  | loadAbs addr =>
    let (v, s) := s.readAt addr
    s.modifyRegs fun r => { r with a := v }
  | storeHigh n => s.writeAt (highAddress n) s.regs.a
  | loadHigh n =>
    let (v, s) := s.readAt (highAddress n)
    s.modifyRegs fun r => { r with a := v }
  | storeHighC => s.writeAt (highAddress s.regs.c) s.regs.a
  | loadHighC =>
    let (v, s) := s.readAt (highAddress s.regs.c)
    s.modifyRegs fun r => { r with a := v }
  | loadPair p n => s.modifyRegs (·.setPair p n)
  | storeSP addr => { s with bus := Bus.writeWord addr s.regs.sp s.bus }
  | loadSPHL => s.modifyRegs fun r => { r with sp := r.hl }
  | loadHLSP e => s.modifyRegs fun r =>
      let (v, flags) := addDisplacement r.sp e
      { r with flags := flags }.setHL v
  | push p => s.push (s.regs.stackPair p)
  | pop p =>
    let (w, s) := s.pop
    s.modifyRegs (·.setStackPair p w)
  | alu op src =>
    let (v, s) := s.readOperand src
    s.combine op v
  | aluImm op n => s.combine op n
  | inc r =>
    let (v, s) := s.readOperand r
    let (v, flags) := increment v s.regs.flags
    (s.writeOperand r v).modifyRegs fun r => { r with flags := flags }
  | dec r =>
    let (v, s) := s.readOperand r
    let (v, flags) := decrement v s.regs.flags
    (s.writeOperand r v).modifyRegs fun r => { r with flags := flags }
  | incPair p => s.modifyRegs fun r => r.setPair p (r.pair p + 1)
  | decPair p => s.modifyRegs fun r => r.setPair p (r.pair p - 1)
  | addHL p => s.modifyRegs fun r =>
      let (v, flags) := addWords r.hl (r.pair p) r.flags
      { r with flags := flags }.setHL v
  | addSP e => s.modifyRegs fun r =>
      let (v, flags) := addDisplacement r.sp e
      { r with flags := flags, sp := v }
  | rotateA op => s.modifyRegs fun r =>
      let (v, carry) := op.toShift.apply r.a r.flags.c
      { r with a := v, flags := { c := carry } }
  | daa => s.modifyRegs fun r =>
      let (v, flags) := decimalAdjust r.a r.flags
      { r with a := v, flags := flags }
  | cpl => s.modifyRegs fun r =>
      { r with a := ~~~r.a, flags := { r.flags with n := true, h := true } }
  | scf => s.modifyRegs fun r => { r with flags := { z := r.flags.z, c := true } }
  | ccf => s.modifyRegs fun r => { r with flags := { z := r.flags.z, c := !r.flags.c } }
  | shift op r =>
    let (v, s) := s.readOperand r
    let (v, carry) := op.apply v s.regs.flags.c
    (s.writeOperand r v).modifyRegs fun r => { r with flags := { z := v == 0, c := carry } }
  | bit i r =>
    let (v, s) := s.readOperand r
    s.modifyRegs fun r =>
      { r with flags := { z := v &&& bitMask i == 0, n := false, h := true, c := r.flags.c } }
  | res i r =>
    let (v, s) := s.readOperand r
    s.writeOperand r (v &&& ~~~bitMask i)
  | set i r =>
    let (v, s) := s.readOperand r
    s.writeOperand r (v ||| bitMask i)
  | jp cond target => if s.regs.flags.allow cond then s.jump target else s
  | jpHL => s.jump s.regs.hl
  | jr cond e => if s.regs.flags.allow cond then s.jump (displaced s.regs.pc e) else s
  | call cond target => if s.regs.flags.allow cond then s.call target else s
  | ret cond => if s.regs.flags.allow cond then s.ret else s
  | reti => s.ret.modifyRegs fun r => { r with ime := true }
  | rst v => s.call v.toUInt16
  | invalid _ => s

/-- The clocks of an operation on a byte operand. -/
@[inline] def byteClocks (r : Reg8) (register memory : Nat) : Nat :=
  if r = .atHL then memory else register

/-- The clocks that an operation takes under the flags before it. -/
def clocks (op : Operation) (flags : Flags) : Nat :=
  match op with
  | nop | stop | halt | di | ei => 4
  | load dst src => byteClocks dst (byteClocks src 4 8) 8
  | loadImm dst _ => byteClocks dst 8 12
  | storeAt _ | loadAt _ => 8
  | storeAbs _ | loadAbs _ => 16
  | storeHigh _ | loadHigh _ => 12
  | storeHighC | loadHighC => 8
  | loadPair _ _ => 12
  | storeSP _ => 20
  | loadSPHL => 8
  | loadHLSP _ => 12
  | push _ => 16
  | pop _ => 12
  | alu _ src => byteClocks src 4 8
  | aluImm _ _ => 8
  | inc r | dec r => byteClocks r 4 12
  | incPair _ | decPair _ | addHL _ => 8
  | addSP _ => 16
  | rotateA _ | daa | cpl | scf | ccf => 4
  | shift _ r => byteClocks r 8 16
  | bit _ r => byteClocks r 8 12
  | res _ r | set _ r => byteClocks r 8 16
  | jp cond _ => if flags.allow cond then 16 else 12
  | jpHL => 4
  | jr cond _ => if flags.allow cond then 12 else 8
  | call cond _ => if flags.allow cond then 24 else 12
  | ret none => 16
  | ret (some cc) => if flags.meets cc then 20 else 8
  | reti => 16
  | rst _ => 16
  | invalid _ => 0

end Operation

/-- What an operation asks of the latches of the processor. -/
inductive Control where
  /-- Nothing. -/
  | none
  /-- Enable interrupts after the next operation. -/
  | enableInterrupts
  /-- Withdraw an enabling of interrupts that has not taken effect. -/
  | disableInterrupts
  /-- Wait for an interrupt. -/
  | halt
  /-- Stop for good. -/
  | stop
  deriving DecidableEq, Repr

/-- What an operation asks of the latches. -/
def Operation.control : Operation → Control
  | .ei => .enableInterrupts
  | .di => .disableInterrupts
  | .halt => .halt
  | .stop => .stop
  | _ => .none

/-- The reasons for which nothing can be executed. -/
inductive CpuError where
  /-- The byte at `pc` encodes nothing. -/
  | invalidOpcode (opcode : UInt8) (pc : UInt16)
  /-- The operands of an instruction do not fit its mnemonic. -/
  | operandMismatch (mnemonic : Mnemonic)
  deriving DecidableEq, Repr

/-- The text of an error. -/
def CpuError.message : CpuError → String
  | invalidOpcode opcode pc => "invalid opcode 0x" ++ hexByte opcode ++ " at 0x" ++ hexWord pc
  | operandMismatch m => "operands do not fit " ++ m.label

/-- The result of an execution. -/
structure Outcome where
  clocks : Nat
  control : Control
  deriving DecidableEq, Repr

variable {β : Type u} [Bus β]

/-- Execute an operation whose encoding ends at the program counter. -/
@[specialize] def Operation.execute (op : Operation) (s : Core β) :
    Except CpuError Outcome × Core β :=
  match op with
  | .invalid opcode => (.error (.invalidOpcode opcode (s.regs.pc - 1)), s)
  | op => (.ok ⟨op.clocks s.regs.flags, op.control⟩, op.effect s)

/-- Execute an instruction whose encoding ends at the program counter. -/
def Instruction.execute (i : Instruction) (s : Core β) : Except CpuError Outcome × Core β :=
  match i.operation? with
  | none => (.error (.operandMismatch i.mnemonic), s)
  | some op => op.execute s

/-- An operation and its assembly form do the same. -/
@[simp] theorem Instruction.execute_toInstruction (op : Operation) (s : Core β) :
    op.toInstruction.execute s = op.execute s := by
  simp [Instruction.execute]

end Sm83
