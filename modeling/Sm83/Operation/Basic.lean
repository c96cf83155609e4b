import Sm83.Instruction.Basic
import Sm83.Word

/-!
# Operations

What the processor can be asked to do, one constructor per addressing form.  An operation
always makes sense: operands that do not fit cannot be expressed.  The assembly form of an
operation is `Operation.toInstruction`; the way back, `Instruction.operation?`, refuses the
instructions whose operands do not fit their mnemonic.

## Main definitions

* `AluOp`, `Shift`, `Rotation` — the families of byte operations.
* `Operation` — the operations.
* `Operation.toInstruction` — the assembly form of an operation.
* `Instruction.operation?` — the operation that an instruction asks for, if its operands fit.

## Main results

* `Instruction.operation?_toInstruction` — the assembly form of an operation asks for that
  operation.
-/

namespace Sm83

/-- The eight operations of the accumulator with a byte, in the order of their encoding. -/
inductive AluOp where
  | add | adc | sub | sbc | and | xor | or | cp
  deriving DecidableEq, Repr

/-- The eight rotates and shifts of a byte, in the order of their encoding. -/
inductive Shift where
  | rlc | rrc | rl | rr | sla | sra | swap | srl
  deriving DecidableEq, Repr

/-- The four rotates that also have a short form on the accumulator. -/
inductive Rotation where
  | rlc | rrc | rl | rr
  deriving DecidableEq, Repr

/-- The arithmetic operation encoded by a three-bit field. -/
def AluOp.ofBits : Fin 8 → AluOp
  | 0 => .add
  | 1 => .adc
  | 2 => .sub
  | 3 => .sbc
  | 4 => .and
  | 5 => .xor
  | 6 => .or
  | 7 => .cp

/-- The rotate or shift encoded by a three-bit field. -/
def Shift.ofBits : Fin 8 → Shift
  | 0 => .rlc
  | 1 => .rrc
  | 2 => .rl
  | 3 => .rr
  | 4 => .sla
  | 5 => .sra
  | 6 => .swap
  | 7 => .srl

/-- A rotate as a member of the larger family. -/
def Rotation.toShift : Rotation → Shift
  | .rlc => .rlc
  | .rrc => .rrc
  | .rl => .rl
  | .rr => .rr

/-- The mnemonic of an operation on the accumulator. -/
def AluOp.mnemonic : AluOp → Mnemonic
  | .add => .add
  | .adc => .adc
  | .sub => .sub
  | .sbc => .sbc
  | .and => .and
  | .xor => .xor
  | .or => .or
  | .cp => .cp

/-- The mnemonic of a rotate or shift. -/
def Shift.mnemonic : Shift → Mnemonic
  | .rlc => .rlc
  | .rrc => .rrc
  | .rl => .rl
  | .rr => .rr
  | .sla => .sla
  | .sra => .sra
  | .swap => .swap
  | .srl => .srl

/-- The mnemonic of the short form of a rotate. -/
def Rotation.mnemonic : Rotation → Mnemonic
  | .rlc => .rlca
  | .rrc => .rrca
  | .rl => .rla
  | .rr => .rra

/-- An operation of the processor. -/
inductive Operation where
  | nop
  | stop
  | halt
  | di
  | ei
  /-- Copy a byte operand. -/
  | load (dst src : Reg8)
  /-- Set a byte operand. -/
  | loadImm (dst : Reg8) (n : UInt8)
  /-- Store `A` at a memory pointer. -/
  | storeAt (p : Pointer)
  /-- Load `A` from a memory pointer. -/
  | loadAt (p : Pointer)
  /-- Store `A` at a constant address. -/
  | storeAbs (addr : UInt16)
  /-- Load `A` from a constant address. -/
  | loadAbs (addr : UInt16)
  /-- Store `A` at `0xFF00 + n`. -/
  | storeHigh (n : UInt8)
  /-- Load `A` from `0xFF00 + n`. -/
  | loadHigh (n : UInt8)
  /-- Store `A` at `0xFF00 + C`. -/
  | storeHighC
  /-- Load `A` from `0xFF00 + C`. -/
  | loadHighC
  /-- Set a register pair. -/
  | loadPair (p : Pair) (n : UInt16)
  /-- Store `SP` at a constant address. -/
  | storeSP (addr : UInt16)
  /-- Copy `HL` to `SP`. -/
  | loadSPHL
  /-- Set `HL` to `SP` plus a displacement. -/
  | loadHLSP (e : Int8)
  | push (p : StackPair)
  | pop (p : StackPair)
  /-- Combine the accumulator with a byte operand. -/
  | alu (op : AluOp) (src : Reg8)
  /-- Combine the accumulator with a constant. -/
  | aluImm (op : AluOp) (n : UInt8)
  | inc (r : Reg8)
  | dec (r : Reg8)
  | incPair (p : Pair)
  | decPair (p : Pair)
  /-- Add a register pair to `HL`. -/
  | addHL (p : Pair)
  /-- Add a displacement to `SP`. -/
  | addSP (e : Int8)
  /-- Rotate the accumulator. -/
  | rotateA (op : Rotation)
  | daa
  | cpl
  | scf
  | ccf
  /-- Rotate or shift a byte operand. -/
  | shift (op : Shift) (r : Reg8)
  /-- Test a bit. -/
  | bit (i : Fin 8) (r : Reg8)
  /-- Clear a bit. -/
  | res (i : Fin 8) (r : Reg8)
  /-- Set a bit. -/
  | set (i : Fin 8) (r : Reg8)
  /-- Jump, on a condition if one is given. -/
  | jp (cond : Option Cond) (target : UInt16)
  /-- Jump to `HL`. -/
  | jpHL
  /-- Jump by a displacement, on a condition if one is given. -/
  | jr (cond : Option Cond) (e : Int8)
  /-- Call, on a condition if one is given. -/
  | call (cond : Option Cond) (target : UInt16)
  /-- Return, on a condition if one is given. -/
  | ret (cond : Option Cond)
  /-- Return and enable interrupts. -/
  | reti
  /-- Call an address in the first page. -/
  | rst (vector : UInt8)
  /-- An opcode byte without a meaning. -/
  | invalid (opcode : UInt8)
  deriving DecidableEq, Repr

namespace Operation

/-- An optional condition in front of one more operand. -/
def conditional (m : Mnemonic) (cond : Option Cond) (o : Operand) : Instruction :=
  match cond with
  | none => ⟨m, some o, none⟩
  | some cc => ⟨m, some (.cond cc), some o⟩

/-- The assembly form of an operation. -/
def toInstruction : Operation → Instruction
  | nop => ⟨.nop, none, none⟩
  | stop => ⟨.stop, none, none⟩
  | halt => ⟨.halt, none, none⟩
  | di => ⟨.di, none, none⟩
  | ei => ⟨.ei, none, none⟩
  | load dst src => ⟨.ld, some (.reg8 dst), some (.reg8 src)⟩
  | loadImm dst n => ⟨.ld, some (.reg8 dst), some (.imm8 n)⟩
  | storeAt p => ⟨.ld, some (.pointer p), some (.reg8 .a)⟩
  | loadAt p => ⟨.ld, some (.reg8 .a), some (.pointer p)⟩
  | storeAbs addr => ⟨.ld, some (.address addr), some (.reg8 .a)⟩
  | loadAbs addr => ⟨.ld, some (.reg8 .a), some (.address addr)⟩
  | storeHigh n => ⟨.ldh, some (.high n), some (.reg8 .a)⟩
  | loadHigh n => ⟨.ldh, some (.reg8 .a), some (.high n)⟩
  | storeHighC => ⟨.ldh, some .highC, some (.reg8 .a)⟩
  | loadHighC => ⟨.ldh, some (.reg8 .a), some .highC⟩
  | loadPair p n => ⟨.ld, some (.pair p), some (.imm16 n)⟩
  | storeSP addr => ⟨.ld, some (.address addr), some (.pair .sp)⟩
  | loadSPHL => ⟨.ld, some (.pair .sp), some (.pair .hl)⟩
  | loadHLSP e => ⟨.ld, some (.pair .hl), some (.spDisp e)⟩
  | push p => ⟨.push, some (.stackPair p), none⟩
  | pop p => ⟨.pop, some (.stackPair p), none⟩
  | alu op src => ⟨op.mnemonic, some (.reg8 .a), some (.reg8 src)⟩
  | aluImm op n => ⟨op.mnemonic, some (.reg8 .a), some (.imm8 n)⟩
  | inc r => ⟨.inc, some (.reg8 r), none⟩
  | dec r => ⟨.dec, some (.reg8 r), none⟩
  | incPair p => ⟨.inc, some (.pair p), none⟩
  | decPair p => ⟨.dec, some (.pair p), none⟩
  | addHL p => ⟨.add, some (.pair .hl), some (.pair p)⟩
  | addSP e => ⟨.add, some (.pair .sp), some (.disp e)⟩
  | rotateA op => ⟨op.mnemonic, none, none⟩
  | daa => ⟨.daa, none, none⟩
  | cpl => ⟨.cpl, none, none⟩
  | scf => ⟨.scf, none, none⟩
  | ccf => ⟨.ccf, none, none⟩
  | shift op r => ⟨op.mnemonic, some (.reg8 r), none⟩
  | bit i r => ⟨.bit, some (.bit (UInt8.ofNat i)), some (.reg8 r)⟩
  | res i r => ⟨.res, some (.bit (UInt8.ofNat i)), some (.reg8 r)⟩
  | set i r => ⟨.set, some (.bit (UInt8.ofNat i)), some (.reg8 r)⟩
  | jp cond target => conditional .jp cond (.imm16 target)
  | jpHL => ⟨.jp, some (.pair .hl), none⟩
  | jr cond e => conditional .jr cond (.disp e)
  | call cond target => conditional .call cond (.imm16 target)
  | ret none => ⟨.ret, none, none⟩
  | ret (some cc) => ⟨.ret, some (.cond cc), none⟩
  | reti => ⟨.reti, none, none⟩
  | rst v => ⟨.rst, some (.vector v), none⟩
  | invalid b => ⟨.invalid, some (.unknown b), none⟩

end Operation

/-! ### From assembly form to operations -/

namespace Instruction

/-- An operation without operands. -/
def plain? (op : Operation) : Option Operand → Option Operand → Option Operation
  | none, none => some op
  | _, _ => none

/-- The operations written `LD`. -/
def load? : Option Operand → Option Operand → Option Operation
  | some (.reg8 dst), some (.reg8 src) => some (.load dst src)
  | some (.reg8 dst), some (.imm8 n) => some (.loadImm dst n)
  | some (.pointer p), some (.reg8 .a) => some (.storeAt p)
  | some (.reg8 .a), some (.pointer p) => some (.loadAt p)
  | some (.address n), some (.reg8 .a) => some (.storeAbs n)
  | some (.reg8 .a), some (.address n) => some (.loadAbs n)
  | some (.pair p), some (.imm16 n) => some (.loadPair p n)
  | some (.address n), some (.pair .sp) => some (.storeSP n)
  | some (.pair .sp), some (.pair .hl) => some .loadSPHL
  | some (.pair .hl), some (.spDisp e) => some (.loadHLSP e)
  | _, _ => none

/-- The operations written `LDH`. -/
def loadHigh? : Option Operand → Option Operand → Option Operation
  | some (.high n), some (.reg8 .a) => some (.storeHigh n)
  | some (.reg8 .a), some (.high n) => some (.loadHigh n)
  | some .highC, some (.reg8 .a) => some .storeHighC
  | some (.reg8 .a), some .highC => some .loadHighC
  | _, _ => none

/-- The operations of the accumulator with a byte. -/
def alu? (op : AluOp) : Option Operand → Option Operand → Option Operation
  | some (.reg8 .a), some (.reg8 src) => some (.alu op src)
  | some (.reg8 .a), some (.imm8 n) => some (.aluImm op n)
  | _, _ => none

/-- The operations written `ADD`. -/
def add? : Option Operand → Option Operand → Option Operation
  | some (.pair .hl), some (.pair p) => some (.addHL p)
  | some (.pair .sp), some (.disp e) => some (.addSP e)
  | first, second => alu? .add first second

/-- The operations with one operand that is a byte or a register pair. -/
def step? (byte : Reg8 → Operation) (pair : Pair → Operation) :
    Option Operand → Option Operand → Option Operation
  | some (.reg8 r), none => some (byte r)
  | some (.pair p), none => some (pair p)
  | _, _ => none

/-- The rotates and shifts. -/
def shift? (op : Shift) : Option Operand → Option Operand → Option Operation
  | some (.reg8 r), none => some (.shift op r)
  | _, _ => none

/-- The operations on a bit; its number counts modulo 8. -/
def bit? (op : Fin 8 → Reg8 → Operation) : Option Operand → Option Operand → Option Operation
  | some (.bit i), some (.reg8 r) => some (op (threeBits i.toNat) r)
  | _, _ => none

/-- The operations with a stack pair. -/
def stack? (op : StackPair → Operation) : Option Operand → Option Operand → Option Operation
  | some (.stackPair p), none => some (op p)
  | _, _ => none

/-- The operations written `JP`. -/
def jump? : Option Operand → Option Operand → Option Operation
  | some (.imm16 n), none => some (.jp none n)
  | some (.pair .hl), none => some .jpHL
  | some (.cond cc), some (.imm16 n) => some (.jp (some cc) n)
  | _, _ => none

/-- The operations written `JR`. -/
def jumpRelative? : Option Operand → Option Operand → Option Operation
  | some (.disp e), none => some (.jr none e)
  | some (.cond cc), some (.disp e) => some (.jr (some cc) e)
  | _, _ => none

/-- The operations written `CALL`. -/
def call? : Option Operand → Option Operand → Option Operation
  | some (.imm16 n), none => some (.call none n)
  | some (.cond cc), some (.imm16 n) => some (.call (some cc) n)
  | _, _ => none

/-- The operations written `RET`. -/
def ret? : Option Operand → Option Operand → Option Operation
  | none, none => some (.ret none)
  | some (.cond cc), none => some (.ret (some cc))
  | _, _ => none

/-- The operations written `RST`. -/
def restart? : Option Operand → Option Operand → Option Operation
  | some (.vector v), none => some (.rst v)
  | _, _ => none

/-- The data bytes. -/
def data? : Option Operand → Option Operand → Option Operation
  | some (.unknown b), none => some (.invalid b)
  | _, _ => none

/-- The operations that a mnemonic offers, by its operand slots. -/
def form? : Mnemonic → Option Operand → Option Operand → Option Operation
  | .adc => alu? .adc
  | .add => add?
  | .and => alu? .and
  | .bit => bit? .bit
  | .call => call?
  | .ccf => plain? .ccf
  | .cp => alu? .cp
  | .cpl => plain? .cpl
  | .daa => plain? .daa
  | .dec => step? .dec .decPair
  | .di => plain? .di
  | .ei => plain? .ei
  | .halt => plain? .halt
  | .inc => step? .inc .incPair
  | .jp => jump?
  | .jr => jumpRelative?
  | .ld => load?
  | .ldh => loadHigh?
  | .nop => plain? .nop
  | .or => alu? .or
  | .pop => stack? .pop
  | .push => stack? .push
  | .res => bit? .res
  | .ret => ret?
  | .reti => plain? .reti
  | .rl => shift? .rl
  | .rla => plain? (.rotateA .rl)
  | .rlc => shift? .rlc
  | .rlca => plain? (.rotateA .rlc)
  | .rr => shift? .rr
  | .rra => plain? (.rotateA .rr)
  | .rrc => shift? .rrc
  | .rrca => plain? (.rotateA .rrc)
  | .rst => restart?
  | .sbc => alu? .sbc
  | .scf => plain? .scf
  | .set => bit? .set
  | .sla => shift? .sla
  | .sra => shift? .sra
  | .srl => shift? .srl
  | .stop => plain? .stop
  | .sub => alu? .sub
  | .swap => shift? .swap
  | .xor => alu? .xor
  | .invalid => data?

/-- The operation that an instruction asks for; `none` when its operands do not fit its
mnemonic. -/
def operation? (i : Instruction) : Option Operation :=
  form? i.mnemonic i.first i.second

/-- A bit number below 8 survives the way through a byte. -/
theorem bitNumber_ofNat_toNat (i : Fin 8) : threeBits (UInt8.ofNat i).toNat = i := by
  revert i
  decide

/-- The assembly form of an operation asks for that operation. -/
@[simp] theorem operation?_toInstruction (op : Operation) :
    op.toInstruction.operation? = some op := by
  cases op
  case alu op src => cases op <;> rfl
  case aluImm op n => cases op <;> rfl
  case rotateA op => cases op <;> rfl
  case shift op r => cases op <;> rfl
  case addHL p => rfl
  case loadAt p => rfl
  case bit i r => exact congrArg (fun j => some (Operation.bit j r)) (bitNumber_ofNat_toNat i)
  case res i r => exact congrArg (fun j => some (Operation.res j r)) (bitNumber_ofNat_toNat i)
  case set i r => exact congrArg (fun j => some (Operation.set j r)) (bitNumber_ofNat_toNat i)
  case jp cond n => cases cond <;> rfl
  case jr cond e => cases cond <;> rfl
  case call cond n => cases cond <;> rfl
  case ret cond => cases cond <;> rfl
  all_goals rfl

end Instruction

end Sm83
