import Sm83.Instruction.Basic
import Sm83.Text.Numerals
import Sm83.Word

/-!
# Assembly text

Instructions are written in upper case: the mnemonic, a blank, and the operands with a comma and
a blank between them.  At a known address the target of a jump or call is shown instead of the
displacement, by its label where one is known.

## Main definitions

* `Operand.text` — an operand on its own.
* `Instruction.text` — the canonical text of an instruction.
* `Instruction.textAt` — the text of an instruction at a known address.
-/

namespace Sm83

/-- The assembly name of a byte operand. -/
def Reg8.text : Reg8 → String
  | .b => "B"
  | .c => "C"
  | .d => "D"
  | .e => "E"
  | .h => "H"
  | .l => "L"
  | .atHL => "[HL]"
  | .a => "A"

/-- The assembly name of a register pair. -/
def Pair.text : Pair → String
  | .bc => "BC"
  | .de => "DE"
  | .hl => "HL"
  | .sp => "SP"

/-- The assembly name of the cell at a memory pointer. -/
def Pointer.text : Pointer → String
  | .bc => "[BC]"
  | .de => "[DE]"
  | .hlInc => "[HL+]"
  | .hlDec => "[HL-]"

/-- The assembly name of a stack pair. -/
def StackPair.text : StackPair → String
  | .bc => "BC"
  | .de => "DE"
  | .hl => "HL"
  | .af => "AF"

/-- The assembly name of a condition. -/
def Cond.text : Cond → String
  | .nz => "NZ"
  | .z => "Z"
  | .nc => "NC"
  | .c => "C"

/-- An operand as it stands in assembly text.  Hexadecimal constants follow a dollar sign,
memory cells stand in brackets. -/
def Operand.text : Operand → String
  | .reg8 r => r.text
  | .pair p => p.text
  | .pointer p => p.text
  | .stackPair p => p.text
  | .imm8 n => "$" ++ hexByte n
  | .disp e => decimal e.toInt
  | .high n => "[$FF" ++ hexByte n ++ "]"
  | .highC => "[$FF00+C]"
  | .spDisp e => (if e < 0 then "SP" else "SP+") ++ decimal e.toInt
  | .imm16 n => "$" ++ hexWord n
  | .address n => "[$" ++ hexWord n ++ "]"
  | .bit i => decimal i.toNat
  | .vector v => "$" ++ hexByte v
  | .cond cc => cc.text
  | .unknown b => "$" ++ hexByte b

namespace Instruction

/-- A mnemonic followed by operand texts. -/
def joined (m : Mnemonic) : List String → String
  | [] => m.name
  | t :: ts => m.name ++ " " ++ ", ".intercalate (t :: ts)

/-- The canonical assembly text, with displacements as signed numbers. -/
def text (i : Instruction) : String :=
  joined i.mnemonic (i.operands.map Operand.text)

/-- The address to which an operand leads when the instruction is followed by the one at
`next`: the target of a relative jump, or the word constant of a jump or call. -/
def target? (m : Mnemonic) (next : UInt16) : Operand → Option UInt16
  | .disp e => if m = .jr then some (displaced next e) else none
  | .imm16 n => if m = .jp ∨ m = .call then some n else none
  | _ => none

/-- An operand at a known address: the label of its target if there is one, else the target
itself, else the operand on its own. -/
def operandTextAt (m : Mnemonic) (next : UInt16) (label? : UInt16 → Option String)
    (o : Operand) : String :=
  match target? m next o with
  | some t => (label? t).getD ("$" ++ hexWord t)
  | none => o.text

/-- The text of an instruction that is followed by the one at `next`, with `label?` naming
addresses. -/
def textAt (i : Instruction) (next : UInt16) (label? : UInt16 → Option String) : String :=
  joined i.mnemonic (i.operands.map (operandTextAt i.mnemonic next label?))

end Instruction

end Sm83
