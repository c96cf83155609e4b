import Sm83.Register

/-!
# Instructions in assembly form

An instruction as it is written down: a mnemonic and at most two operands.  Nothing in this
form ties the operands to the mnemonic; which combinations mean something is said by
`Sm83.Operation`.

## Main definitions

* `Mnemonic` — the operation classes; `Mnemonic.label` and `Mnemonic.ofLabel?` name them.
* `Operand` — the kinds of operands.
* `Instruction` — a mnemonic with two operand slots.
-/

namespace Sm83

/-- The class of an instruction.  `invalid` stands for an opcode byte without a meaning. -/
inductive Mnemonic where
  | adc | add | and | bit | call | ccf | cp | cpl | daa | dec | di | ei | halt | inc | jp | jr
  | ld | ldh | nop | or | pop | push | res | ret | reti | rl | rla | rlc | rlca | rr | rra | rrc
  | rrca | rst | sbc | scf | set | sla | sra | srl | stop | sub | swap | xor | invalid
  deriving DecidableEq, Repr

namespace Mnemonic

/-- Every mnemonic. -/
def all : List Mnemonic :=
  [adc, add, and, bit, call, ccf, cp, cpl, daa, dec, di, ei, halt, inc, jp, jr, ld, ldh, nop, or,
    pop, push, res, ret, reti, rl, rla, rlc, rlca, rr, rra, rrc, rrca, rst, sbc, scf, set, sla,
    sra, srl, stop, sub, swap, xor, invalid]

/-- The word that stands for a mnemonic in assembly text.  An opcode without a meaning is
written as a data byte. -/
def name : Mnemonic → String
  | adc => "ADC"
  | add => "ADD"
  | and => "AND"
  | bit => "BIT"
  | call => "CALL"
  | ccf => "CCF"
  | cp => "CP"
  | cpl => "CPL"
  | daa => "DAA"
  | dec => "DEC"
  | di => "DI"
  | ei => "EI"
  | halt => "HALT"
  | inc => "INC"
  | jp => "JP"
  | jr => "JR"
  | ld => "LD"
  | ldh => "LDH"
  | nop => "NOP"
  | or => "OR"
  | pop => "POP"
  | push => "PUSH"
  | res => "RES"
  | ret => "RET"
  | reti => "RETI"
  | rl => "RL"
  | rla => "RLA"
  | rlc => "RLC"
  | rlca => "RLCA"
  | rr => "RR"
  | rra => "RRA"
  | rrc => "RRC"
  | rrca => "RRCA"
  | rst => "RST"
  | sbc => "SBC"
  | scf => "SCF"
  | set => "SET"
  | sla => "SLA"
  | sra => "SRA"
  | srl => "SRL"
  | stop => "STOP"
  | sub => "SUB"
  | swap => "SWAP"
  | xor => "XOR"
  | invalid => "DB"

/-- The capitalised label by which messages name a mnemonic. -/
def label : Mnemonic → String
  | invalid => "Invalid"
  | m =>
    match m.name.toList with
    | [] => ""
    | c :: cs => String.ofList (c :: cs.map Char.toLower)

/-- The mnemonic with a given label. -/
def ofLabel? (s : String) : Option Mnemonic :=
  all.find? (·.label == s)

end Mnemonic

/-- An operand of an instruction. -/
inductive Operand where
  /-- A byte register or the cell at `HL`. -/
  | reg8 (r : Reg8)
  /-- A register pair. -/
  | pair (p : Pair)
  /-- The cell at a register pair. -/
  | pointer (p : Pointer)
  /-- A register pair on the stack. -/
  | stackPair (p : StackPair)
  /-- A byte constant. -/
  | imm8 (n : UInt8)
  /-- A signed displacement, of the program counter or of `SP`. -/
  | disp (e : Int8)
  /-- The cell at `0xFF00 + n`. -/
  | high (n : UInt8)
  /-- The cell at `0xFF00 + C`. -/
  | highC
  /-- The sum of `SP` and a signed displacement. -/
  | spDisp (e : Int8)
  /-- A word constant. -/
  | imm16 (n : UInt16)
  /-- The cell at a constant address. -/
  | address (n : UInt16)
  /-- The number of a bit. -/
  | bit (i : UInt8)
  /-- The target of a restart. -/
  | vector (v : UInt8)
  /-- A condition. -/
  | cond (cc : Cond)
  /-- An opcode byte without a meaning. -/
  | unknown (b : UInt8)
  deriving DecidableEq, Repr

/-- A mnemonic with two operand slots, in assembly order. -/
structure Instruction where
  mnemonic : Mnemonic
  first : Option Operand := none
  second : Option Operand := none
  deriving DecidableEq, Repr

namespace Instruction

/-- The operands that are present, in order. -/
def operands (i : Instruction) : List Operand :=
  i.first.toList ++ i.second.toList

/-- Whether the instruction stands for an opcode byte without a meaning. -/
def isInvalid (i : Instruction) : Bool :=
  i.mnemonic == .invalid

end Instruction

end Sm83
