import Mathlib.Tactic.FinCases
import Sm83.Instruction.Text
import Sm83.Proofs.Operation.Encoding
import Sm83.Proofs.Text.Numerals

/-!
# Assembly text is read back

The text of an instruction is read from left to right: the mnemonic ends at the first blank, the
first operand at the first comma. What an operand means depends on the mnemonic, because `C` is a
register or a condition, `BC` is a register pair or what is pushed, and a numeral is a displacement
or the number of a bit. With the mnemonic known, an operand is a constant or one of a few names. So
the text of an operation names the operation, and by the encodings of operations it names all the
bytes that were fetched, but for the one behind `STOP`.

## Main definitions

* `Mnemonic.named`, `Mnemonic.constant?` — the operands that a mnemonic can have, by name and as
  constants.
* `Operand.ofText?`, `Instruction.ofText?` — readers of operands and instructions.
* `Operand.Fits` — the operand is one that the mnemonic can have.

## Main results

* `Operand.ofText?_text`, `Instruction.ofText?_text` — operands and instructions are read back.
* `Operation.ofText?_text_toInstruction` — the text of an operation denotes its assembly form.
* `text_determines_bytes` — what is decoded and written alike was fetched from the same bytes.
-/

namespace Sm83

/-! ### Cutting a text in two -/

/-- The part of a text in front of the first mark, and the rest from the mark on. -/
def cut (mark : Char) (cs : List Char) : List Char × List Char :=
  (cs.takeWhile (· != mark), cs.dropWhile (· != mark))

theorem bne_of_mem {mark : Char} {cs : List Char} (h : mark ∉ cs) :
    ∀ c ∈ cs, (c != mark) = true :=
  fun _ hc => bne_iff_ne.mpr fun heq => h (heq ▸ hc)

theorem cut_append {mark : Char} {cs : List Char} (h : mark ∉ cs) (rest : List Char) :
    cut mark (cs ++ mark :: rest) = (cs, mark :: rest) := by
  rw [cut, List.takeWhile_append_of_pos (bne_of_mem h),
    List.dropWhile_append_of_pos (bne_of_mem h)]
  simp

theorem cut_eq_self {mark : Char} {cs : List Char} (h : mark ∉ cs) : cut mark cs = (cs, []) := by
  rw [cut, List.takeWhile_eq_self_iff.mpr (bne_of_mem h),
    List.dropWhile_eq_nil_iff.mpr (bne_of_mem h)]

/-! ### Operands -/

namespace Operand

/-- The registers and the cells that pairs of them point to. -/
def registers : List Operand :=
  [.reg8 .b, .reg8 .c, .reg8 .d, .reg8 .e, .reg8 .h, .reg8 .l, .reg8 .atHL, .reg8 .a,
    .pair .bc, .pair .de, .pair .hl, .pair .sp,
    .pointer .bc, .pointer .de, .pointer .hlInc, .pointer .hlDec]

/-- The register pairs on the stack. -/
def stackPairs : List Operand :=
  [.stackPair .bc, .stackPair .de, .stackPair .hl, .stackPair .af]

/-- The conditions. -/
def conditions : List Operand :=
  [.cond .nz, .cond .z, .cond .nc, .cond .c]

@[simp] theorem reg8_mem_registers (x : Reg8) : reg8 x ∈ registers := by
  cases x <;> simp [registers]

@[simp] theorem pair_mem_registers (p : Pair) : pair p ∈ registers := by
  cases p <;> simp [registers]

@[simp] theorem pointer_mem_registers (p : Pointer) : pointer p ∈ registers := by
  cases p <;> simp [registers]

@[simp] theorem stackPair_mem_stackPairs (p : StackPair) : stackPair p ∈ stackPairs := by
  cases p <;> simp [stackPairs]

@[simp] theorem cond_mem_conditions (cc : Cond) : cond cc ∈ conditions := by
  cases cc <;> simp [conditions]

end Operand

/-- The operands with a name that a mnemonic can have. -/
def Mnemonic.named : Mnemonic → List Operand
  | push | pop => Operand.stackPairs
  | jp | jr | call | ret => .pair .hl :: Operand.conditions
  | ldh => [.reg8 .a, .highC]
  | _ => Operand.registers

/-- The mnemonics whose numerals are numbers of bits. -/
def Mnemonic.isBitwise (m : Mnemonic) : Bool :=
  m = bit ∨ m = res ∨ m = set

/-- The constant that a text denotes behind a mnemonic. -/
def Mnemonic.constant? (m : Mnemonic) : List Char → Option Operand
  | '$' :: cs => (readHex? 0x10000 cs).map fun n =>
      if m = rst then .vector (UInt8.ofNat n)
      else if m = invalid then .unknown (UInt8.ofNat n)
      else if cs.length = 2 then .imm8 (UInt8.ofNat n)
      else .imm16 (UInt16.ofNat n)
  | '[' :: '$' :: cs =>
      if m = ldh then
        -- the digits of the high byte are always the same
        (readHex? 0x100 (cs.dropLast.drop 2)).map fun n => .high (UInt8.ofNat n)
      else (readHex? 0x10000 cs.dropLast).map fun n => .address (UInt16.ofNat n)
  | 'S' :: 'P' :: cs => (readInteger? 0x100 cs).map fun z => .spDisp (Int8.ofInt z)
  | cs => (readInteger? 0x100 cs).map fun z =>
      if m.isBitwise then .bit (UInt8.ofNat z.toNat) else .disp (Int8.ofInt z)

namespace Operand

/-- The operand that a text denotes behind a mnemonic. -/
def ofText? (m : Mnemonic) (cs : List Char) : Option Operand :=
  (m.constant? cs).or (m.named.find? (·.text.toList == cs))

/-- An operand is one that a mnemonic can have. -/
def Fits (m : Mnemonic) : Operand → Prop
  | imm8 _ | imm16 _ => m ≠ .rst ∧ m ≠ .invalid
  | disp _ => m.isBitwise = false
  | high _ => m = .ldh
  | spDisp _ => True
  | address _ => m ≠ .ldh
  | bit _ => m.isBitwise = true
  | vector _ => m = .rst
  | unknown _ => m = .invalid
  | o => o ∈ m.named

/-- No operand is written with a comma. -/
theorem comma_notMem_text (o : Operand) : ',' ∉ o.text.toList := by
  have hbyte (n : UInt8) : ',' ∉ (hexByte n).toList := notMem_hexNumeral (by decide) _ _
  have hword (n : UInt16) : ',' ∉ (hexWord n).toList := notMem_hexNumeral (by decide) _ _
  have hdecimal (z : Int) : ',' ∉ (decimal z).toList := by
    intro hmem
    rcases mem_decimal hmem with hdigit | hminus
    · exact absurd hdigit (by decide)
    · exact absurd hminus (by decide)
  cases o with
  | reg8 x | pair x | pointer x | stackPair x | cond x => cases x <;> decide
  | highC => decide
  | imm8 n | vector n | unknown n | high n => simp [text, hbyte]
  | imm16 n | address n => simp [text, hword]
  | disp e => exact hdecimal _
  | bit i => exact hdecimal _
  | spDisp e =>
    simp only [text]
    split <;> simp [hdecimal]

/-- A name is no constant, and it is the name of one operand. -/
theorem ofText?_text_of_mem_named {m : Mnemonic} {o : Operand} (h : o ∈ m.named) :
    ofText? m o.text.toList = some o := by
  have hname : m.constant? o.text.toList = none ∧
      m.named.find? (fun o' => o'.text.toList == o.text.toList) = some o := by
    revert h
    unfold Mnemonic.named Operand.stackPairs Operand.conditions Operand.registers
    split <;> intro h <;> fin_cases h <;> exact ⟨rfl, rfl⟩
  rw [ofText?, hname.1, hname.2, Option.none_or]

end Operand

theorem natAbs_toInt_lt (e : Int8) : e.toInt.natAbs < 0x100 := by
  have hlower := e.le_toInt
  have hupper := e.toInt_lt
  omega

namespace Mnemonic

variable (m : Mnemonic)

theorem constant?_hexByte (n : UInt8) : m.constant? ("$" ++ hexByte n).toList =
    some (if m = rst then .vector n else if m = invalid then .unknown n else .imm8 n) := by
  have htext : ("$" ++ hexByte n).toList = '$' :: (hexByte n).toList := String.toList_append
  have hlength : (hexByte n).toList.length = 2 := length_hexNumeral _ _
  rw [htext, constant?, readHex?_hexByte (by decide)]
  simp [hlength]

theorem constant?_hexWord (hrst : m ≠ rst) (hinvalid : m ≠ invalid) (n : UInt16) :
    m.constant? ("$" ++ hexWord n).toList = some (.imm16 n) := by
  have htext : ("$" ++ hexWord n).toList = '$' :: (hexWord n).toList := String.toList_append
  have hlength : (hexWord n).toList.length = 4 := length_hexNumeral _ _
  rw [htext, constant?, readHex?_hexWord]
  simp [hlength, hrst, hinvalid]

theorem constant?_text_address (hldh : m ≠ ldh) (n : UInt16) :
    m.constant? (Operand.address n).text.toList = some (.address n) := by
  have htext : (Operand.address n).text.toList = '[' :: '$' :: ((hexWord n).toList ++ [']']) := by
    simp [Operand.text]
  rw [htext, constant?, if_neg hldh, List.dropLast_concat, readHex?_hexWord, Option.map_some,
    UInt16.ofNat_toNat]

theorem constant?_text_high (n : UInt8) :
    ldh.constant? (Operand.high n).text.toList = some (.high n) := by
  have htext : (Operand.high n).text.toList =
      '[' :: '$' :: ('F' :: 'F' :: (hexByte n).toList ++ [']']) := by
    simp [Operand.text]
  rw [htext, constant?, if_pos rfl, List.dropLast_concat, List.drop_succ_cons, List.drop_succ_cons,
    List.drop_zero, readHex?_hexByte (by decide), Option.map_some, UInt8.ofNat_toNat]

/-- A decimal numeral is read as a number. -/
theorem constant?_decimal {z : Int} (h : z.natAbs < 0x100) :
    m.constant? (decimal z).toList =
      some (if m.isBitwise then .bit (UInt8.ofNat z.toNat) else .disp (Int8.ofInt z)) := by
  have hsigns (c : Char) (hc : c ∈ (decimal z).toList) : c.isDigit = true ∨ c = '-' :=
    mem_decimal hc
  have hread := readInteger?_decimal h
  generalize (decimal z).toList = cs at hsigns hread ⊢
  unfold constant?
  split
  · exact absurd (hsigns '$' List.mem_cons_self) (by decide)
  · exact absurd (hsigns '[' List.mem_cons_self) (by decide)
  · exact absurd (hsigns 'S' List.mem_cons_self) (by decide)
  · rw [hread, Option.map_some]

theorem constant?_text_spDisp (e : Int8) :
    m.constant? (Operand.spDisp e).text.toList = some (.spDisp e) := by
  have hread {cs : List Char} (h : readInteger? 0x100 cs = some e.toInt) :
      m.constant? ('S' :: 'P' :: cs) = some (.spDisp e) := by
    rw [constant?, h, Option.map_some, Int8.ofInt_toInt]
  by_cases hneg : e < 0
  · have htext : (Operand.spDisp e).text.toList = 'S' :: 'P' :: (decimal e.toInt).toList := by
      simp [Operand.text, hneg]
    rw [htext]
    exact hread (readInteger?_decimal (natAbs_toInt_lt e))
  · have htext : (Operand.spDisp e).text.toList =
        'S' :: 'P' :: '+' :: (decimal e.toInt).toList := by
      simp [Operand.text, hneg]
    have hpos : 0 ≤ e.toInt := Int.not_lt.mp fun h => hneg (Int8.lt_iff_toInt_lt.mpr h)
    rw [htext]
    exact hread (readInteger?_plus hpos (natAbs_toInt_lt e))

end Mnemonic

/-- **Operands are read back.** Behind a mnemonic that can have it, the text of an operand denotes
that operand. -/
theorem Operand.ofText?_text {m : Mnemonic} {o : Operand} (h : o.Fits m) :
    ofText? m o.text.toList = some o := by
  have hconstant (hread : m.constant? o.text.toList = some o) :
      ofText? m o.text.toList = some o := by
    rw [ofText?, hread, Option.some_or]
  cases o with
  | reg8 _ | pair _ | pointer _ | stackPair _ | cond _ | highC => exact ofText?_text_of_mem_named h
  | imm8 n =>
    refine hconstant ((m.constant?_hexByte n).trans ?_)
    rw [if_neg h.1, if_neg h.2]
  | imm16 n => exact hconstant (m.constant?_hexWord h.1 h.2 n)
  | vector n =>
    obtain rfl : m = .rst := h
    exact hconstant (Mnemonic.constant?_hexByte _ n)
  | unknown n =>
    obtain rfl : m = .invalid := h
    exact hconstant (Mnemonic.constant?_hexByte _ n)
  | high n =>
    obtain rfl : m = .ldh := h
    exact hconstant (Mnemonic.constant?_text_high n)
  | address n => exact hconstant (m.constant?_text_address h n)
  | disp e =>
    refine hconstant ((m.constant?_decimal (natAbs_toInt_lt e)).trans ?_)
    rw [if_neg (Bool.eq_false_iff.mp h), Int8.ofInt_toInt]
  | bit n =>
    have hbitwise : m.isBitwise = true := h
    refine hconstant ((m.constant?_decimal (z := n.toNat) n.toNat_lt).trans ?_)
    rw [if_pos hbitwise, Int.toNat_natCast, UInt8.ofNat_toNat]
  | spDisp e => exact hconstant (m.constant?_text_spDisp e)

/-! ### Instructions -/

namespace Instruction

/-- The mnemonic that a text names. -/
def mnemonicOf? (cs : List Char) : Option Mnemonic :=
  Mnemonic.all.find? (·.name.toList == cs)

/-- The operands that a text denotes behind a mnemonic and a blank. -/
def operandsOf? (m : Mnemonic) (cs : List Char) : Option (List Operand) :=
  match cut ',' cs with
  | (first, []) => (Operand.ofText? m first).map ([·])
  | (first, _ :: _ :: second) => do
    return [← Operand.ofText? m first, ← Operand.ofText? m second]
  | _ => none

/-- The instruction that a text denotes. -/
def ofText? (s : String) : Option Instruction :=
  let (name, rest) := cut ' ' s.toList
  (mnemonicOf? name).bind fun m =>
    match rest with
    | [] => some ⟨m, none, none⟩
    | _ :: rest => (operandsOf? m rest).map fun os => ⟨m, os[0]?, os[1]?⟩

theorem mnemonicOf?_name (m : Mnemonic) : mnemonicOf? m.name.toList = some m := by
  cases m <;> decide

theorem blank_notMem_name (m : Mnemonic) : ' ' ∉ m.name.toList := by
  cases m <;> decide

theorem ofText?_of_operandsOf? {s : String} {m : Mnemonic} {cs : List Char} {os : List Operand}
    (htext : s.toList = m.name.toList ++ ' ' :: cs) (hos : operandsOf? m cs = some os) :
    ofText? s = some ⟨m, os[0]?, os[1]?⟩ := by
  rw [ofText?, htext, cut_append (blank_notMem_name m)]
  simp only [mnemonicOf?_name, Option.bind_some, hos, Option.map_some]

/-- **Instructions are read back.** The text of an instruction denotes that instruction, when its
operands fit the mnemonic and fill the slots in order. -/
theorem ofText?_text {i : Instruction} (hslots : i.first = none → i.second = none)
    (hfits : ∀ o ∈ i.operands, o.Fits i.mnemonic) : ofText? i.text = some i := by
  obtain ⟨m, first, second⟩ := i
  cases first with
  | none =>
    obtain rfl : second = none := hslots rfl
    have htext : (⟨m, none, none⟩ : Instruction).text = m.name := rfl
    rw [htext, ofText?, cut_eq_self (blank_notMem_name m)]
    simp only [mnemonicOf?_name, Option.bind_some]
  | some o =>
    have hfirst := Operand.ofText?_text (hfits o (by simp [operands]))
    cases second with
    | none =>
      have htext : (⟨m, some o, none⟩ : Instruction).text.toList =
          m.name.toList ++ ' ' :: o.text.toList := by
        simp [text, operands, joined]
      have hread : operandsOf? m o.text.toList = some [o] := by
        rw [operandsOf?, cut_eq_self o.comma_notMem_text]
        simp only [hfirst, Option.map_some]
      exact ofText?_of_operandsOf? htext hread
    | some o' =>
      have hsecond := Operand.ofText?_text (hfits o' (by simp [operands]))
      have htext : (⟨m, some o, some o'⟩ : Instruction).text.toList =
          m.name.toList ++ ' ' :: (o.text.toList ++ ',' :: ' ' :: o'.text.toList) := by
        simp [text, operands, joined]
      have hread : operandsOf? m (o.text.toList ++ ',' :: ' ' :: o'.text.toList) =
          some [o, o'] := by
        rw [operandsOf?, cut_append o.comma_notMem_text]
        simp [hfirst, hsecond]
      exact ofText?_of_operandsOf? htext hread

end Instruction

/-! ### Operations -/

namespace Operation

theorem second_toInstruction_eq_none {op : Operation} (h : op.toInstruction.first = none) :
    op.toInstruction.second = none := by
  cases op with
  | jp cond _ | jr cond _ | call cond _ | ret cond =>
    cases cond with
    | none => rfl
    | some cc => cases h
  | _ => first | rfl | cases h

/-- The operands of an operation fit its mnemonic. -/
theorem fits_of_mem_operands {op : Operation} {o : Operand}
    (h : o ∈ op.toInstruction.operands) : o.Fits op.toInstruction.mnemonic := by
  revert o
  cases op with
  | alu f _ | aluImm f _ | shift f _ | rotateA f =>
    cases f <;> simp [toInstruction, Instruction.operands, Operand.Fits, Mnemonic.named,
      AluOp.mnemonic, Shift.mnemonic, Rotation.mnemonic]
  | jp cond _ | jr cond _ | call cond _ | ret cond =>
    cases cond <;> simp [toInstruction, conditional, Instruction.operands, Operand.Fits,
      Mnemonic.named, Mnemonic.isBitwise]
  | _ =>
    simp [toInstruction, Instruction.operands, Operand.Fits, Mnemonic.named, Mnemonic.isBitwise]

/-- The text of an operation denotes its assembly form. -/
theorem ofText?_text_toInstruction (op : Operation) :
    Instruction.ofText? op.toInstruction.text = some op.toInstruction :=
  Instruction.ofText?_text second_toInstruction_eq_none fun _ => fits_of_mem_operands

/-- Operations that are written alike are the same. -/
theorem text_toInstruction_injective {op op' : Operation}
    (h : op.toInstruction.text = op'.toInstruction.text) : op = op' := by
  have hread := ofText?_text_toInstruction op
  rw [h, ofText?_text_toInstruction op', Option.some_inj] at hread
  have hop := congrArg Instruction.operation? hread
  simp only [Instruction.operation?_toInstruction, Option.some_inj] at hop
  exact hop.symm

end Operation

/-- Encodings differ at most in the byte behind `STOP`. -/
theorem Operation.getElem?_encoding {op : Operation} {i : Nat} (h : op = stop → i ≠ 1)
    (pad pad' : UInt8) : (op.encoding pad)[i]? = (op.encoding pad')[i]? := by
  by_cases hstop : op = stop
  · subst hstop
    match i with
    | 0 => rfl
    | 1 => exact absurd rfl (h rfl)
    | _ + 2 => rfl
  · rw [encoding_eq_of_ne_stop hstop pad pad']

/-- **Assembly text is lossless.** If what is decoded at two addresses of two byte sources is
written alike, then it is the same instruction in both, its encodings have the same length, and
the same bytes were fetched, with the one exception of the byte behind `STOP`. -/
theorem text_determines_bytes (read read' : UInt16 → UInt8) (pc pc' : UInt16)
    (h : (fetch pc read).1.instruction.text = (fetch pc' read').1.instruction.text) :
    let f := (fetch pc read).1
    let f' := (fetch pc' read').1
    f.instruction = f'.instruction ∧ f.length = f'.length ∧
      ∀ i < f.length, ¬ (f.instruction.mnemonic = .stop ∧ i = 1) →
        read (pc + UInt16.ofNat i) = read' (pc' + UInt16.ofNat i) := by
  intro f f'
  have hop : f.operation = f'.operation := Operation.text_toInstruction_injective h
  have hlength : f.length = f'.length := by
    rw [length_fetch_eq pc read 0, length_fetch_eq pc' read' 0]
    exact congrArg (fun op => (op.encoding 0).length) hop
  refine ⟨congrArg Operation.toInstruction hop, hlength, fun i hi hpad => ?_⟩
  have hfree (hstop : f.operation = .stop) : i ≠ 1 := fun hone =>
    hpad ⟨congrArg (fun op => op.toInstruction.mnemonic) hstop, hone⟩
  have hbytes : (fetchedBytes read pc)[i]? = (fetchedBytes read' pc')[i]? := by
    rw [← encoding_fetch, ← encoding_fetch]
    exact (Operation.getElem?_encoding hfree _ _).trans (by rw [hop])
  rwa [getElem?_fetchedBytes hi, getElem?_fetchedBytes (hlength ▸ hi), Option.some_inj] at hbytes

/-- What lies behind `STOP` cannot be seen in its text, but the opcode can. -/
theorem stop_opcode_of_text :
    let f := (fetch 0 (bytesAt [0x10, 0x00] 0)).1
    let f' := (fetch 0x150 (bytesAt [0x10, 0xFF] 0x150)).1
    f.instruction.text = f'.instruction.text ∧
      f.instruction = f'.instruction ∧ f.length = f'.length ∧
        ∀ i < f.length, ¬ (f.instruction.mnemonic = .stop ∧ i = 1) →
          bytesAt [0x10, 0x00] 0 (0 + UInt16.ofNat i) =
            bytesAt [0x10, 0xFF] 0x150 (0x150 + UInt16.ofNat i) := by
  intro f f'
  have htext : f.instruction.text = f'.instruction.text := rfl
  exact ⟨htext, text_determines_bytes (bytesAt [0x10, 0x00] 0) (bytesAt [0x10, 0xFF] 0x150) 0 0x150
    htext⟩

end Sm83
