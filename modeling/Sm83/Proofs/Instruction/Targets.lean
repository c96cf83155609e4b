import Sm83.Instruction.Text
import Sm83.Memory.Basic
import Sm83.Proofs.Cpu.Step
import Sm83.Symbol.Table

/-!
# Targets of jumps and calls

The target of a jump or call is computed twice. The processor moves its program counter, which is
behind the encoding when the operation is executed; the text of an instruction at a known address
moves the address of the next instruction. Both are tied here to one function of the operation,
`Operation.target?`, so they agree, also where a displacement leads across an end of memory. No
other instruction has a text that depends on its address.

## Main definitions

* `Operation.target?` — where an operation leads if its condition holds.
* `labelIn` — the labels of a symbol table that may be absent.

## Main results

* `Operation.textAt_of_target?_eq_some`, `Operation.textAt_of_target?_eq_none` — the text at a known
  address.
* `Operation.pc_effect_of_target?_eq_some` — the program counter after the operation.
* `shown_target_is_taken` — the target that is shown is the one that is taken.
-/

namespace Sm83

/-! ### Targets of operations -/

namespace Operation

/-- The address to which an operation leads, given the address behind its encoding, if it leads to
a constant address or moves by a displacement. -/
def target? (next : UInt16) : Operation → Option UInt16
  | jp _ target | call _ target => some target
  | jr _ e => some (displaced next e)
  | _ => none

/-- At a known address, the target is shown in place of the last operand. -/
theorem textAt_of_target?_eq_some {op : Operation} {next target : UInt16}
    (h : op.target? next = some target) (label? : UInt16 → Option String) :
    let i := op.toInstruction
    i.textAt next label? = Instruction.joined i.mnemonic
      (i.operands.dropLast.map Operand.text ++ [(label? target).getD ("$" ++ hexWord target)]) := by
  cases op with
  | jp cond _ | jr cond _ | call cond _ =>
    obtain rfl := Option.some.inj h
    cases cond <;> rfl
  | _ => cases h

/-- An operation without a target is written the same at every address. -/
theorem textAt_of_target?_eq_none {op : Operation} {next : UInt16} (h : op.target? next = none)
    (next' : UInt16) (label? : UInt16 → Option String) :
    op.toInstruction.textAt next' label? = op.toInstruction.text := by
  have hoperand : ∀ o ∈ op.toInstruction.operands,
      Instruction.target? op.toInstruction.mnemonic next' o = none := by
    cases op with
    | jp _ _ | jr _ _ | call _ _ => cases h
    | alu f _ | aluImm f _ | shift f _ | rotateA f =>
      cases f <;> simp [toInstruction, Instruction.operands, Instruction.target?]
    | ret cond =>
      cases cond <;> simp [toInstruction, Instruction.operands, Instruction.target?]
    | _ => simp [toInstruction, Instruction.operands, Instruction.target?]
  have htexts (o : Operand) (ho : o ∈ op.toInstruction.operands) :
      Instruction.operandTextAt op.toInstruction.mnemonic next' label? o = o.text := by
    rw [Instruction.operandTextAt, hoperand o ho]
  rw [Instruction.textAt, Instruction.text, List.map_congr_left htexts]

variable {β : Type u} [Bus β]

/-- The program counter is at the target afterwards, when the condition holds. -/
theorem pc_effect_of_target?_eq_some {op : Operation} {s : Core β} {target : UInt16}
    (h : op.target? s.regs.pc = some target)
    (hmet : ∀ cc, .cond cc ∈ op.toInstruction.operands → s.regs.flags.meets cc = true) :
    (op.effect s).regs.pc = target := by
  cases op with
  | jp cond _ | jr cond _ | call cond _ =>
    obtain rfl := Option.some.inj h
    have hallow : s.regs.flags.allow cond = true := by
      cases cond with
      | none => rfl
      | some cc => exact hmet cc List.mem_cons_self
    simp only [effect, hallow, if_true]
    rfl
  | _ => cases h

/-- Jumps and calls that are not to `HL` have a target. -/
theorem exists_target?_eq_some {op : Operation} (next : UInt16)
    (h : op.toInstruction.mnemonic = .jr ∨ op.toInstruction.mnemonic = .call ∨
      op.toInstruction.mnemonic = .jp ∧ ∃ n, .imm16 n ∈ op.toInstruction.operands) :
    ∃ target, op.target? next = some target := by
  cases op with
  | jp _ _ | jr _ _ | call _ _ => exact ⟨_, rfl⟩
  | alu f _ | aluImm f _ | shift f _ | rotateA f =>
    cases f <;> simp [toInstruction, AluOp.mnemonic, Shift.mnemonic, Rotation.mnemonic] at h
  | ret cond => cases cond <;> simp [toInstruction] at h
  | _ => simp [toInstruction, Instruction.operands] at h

/-- A jump to `HL` has no target, and neither has what is no jump or call. -/
theorem target?_eq_none {op : Operation} (next : UInt16)
    (h : op.toInstruction = ⟨.jp, some (.pair .hl), none⟩ ∨
      op.toInstruction.mnemonic ≠ .jr ∧ op.toInstruction.mnemonic ≠ .jp ∧
        op.toInstruction.mnemonic ≠ .call) :
    op.target? next = none := by
  cases op with
  | jp cond _ | jr cond _ | call cond _ => cases cond <;> simp [toInstruction, conditional] at h
  | _ => rfl

end Operation

/-! ### Steps -/

namespace Cpu

variable {β : Type u} [Bus β]

/-- A step of a processor that is awake succeeds in a jump or call whose condition holds, and leads
to its target. -/
theorem pc_step_of_target?_eq_some {c : Cpu} {bus : β} {target : UInt16}
    (hhalted : c.halted = false) (hstopped : c.stopped = false)
    (htarget : (fetch c.regs.pc bus).1.operation.target? (fetch c.regs.pc bus).1.next = some target)
    (hmet : ∀ cc, .cond cc ∈ (fetch c.regs.pc bus).1.instruction.operands →
      c.regs.flags.meets cc = true) :
    (∃ n, (c.step bus).1 = .ok n) ∧ (c.step bus).2.1.regs.pc = target := by
  have hup : c.upcoming? bus = some (fetch c.regs.pc bus).1.operation :=
    upcoming?_of_awake hhalted hstopped
  obtain ⟨hidle, -⟩ | ⟨op, hop, -, hstep⟩ | ⟨b, -, hop, -, -⟩ := c.step_cases bus
  · rw [hup] at hidle
    cases hidle
  · obtain rfl := Option.some.inj (hup.symm.trans hop)
    have hpc := Operation.pc_effect_of_target?_eq_some (s := c.fetched bus) htarget hmet
    rw [hstep]
    refine ⟨⟨_, rfl⟩, ?_⟩
    simp only [executed, settle]
    split <;> exact hpc
  · rw [Option.some.inj (hup.symm.trans hop)] at htarget
    cases htarget

end Cpu

/-- The label at an address, if there is a symbol table and it has one. -/
def labelIn (symbols : Option SymbolTable) (addr : UInt16) : Option String :=
  symbols.bind (·.labelAt addr)

/-- **The target shown is the target taken.** Let a processor that is awake come to a relative jump,
a jump to a constant address or a call, without a condition or with one that holds. Its step
succeeds, and the text of the instruction at its address ends with the label of the address where
the step leads, or with that address in hexadecimal if the symbols do not label it. A jump to `HL`
and every instruction that is no jump or call are written the same at every address. -/
theorem shown_target_is_taken {β : Type u} {γ : Type v} [Bus β] [ByteSource γ] :
    (∀ (c : Cpu) (bus : β) (symbols : Option SymbolTable),
      let f := (fetch c.regs.pc bus).1
      let i := f.instruction
      let target := (c.step bus).2.1.regs.pc
      c.halted = false → c.stopped = false →
      (i.mnemonic = .jr ∨ i.mnemonic = .call ∨
        i.mnemonic = .jp ∧ ∃ n, .imm16 n ∈ i.operands) →
      (∀ cc, .cond cc ∈ i.operands → c.regs.flags.meets cc = true) →
      (∃ n, (c.step bus).1 = .ok n) ∧
        i.textAt f.next (labelIn symbols) = Instruction.joined i.mnemonic
          (i.operands.dropLast.map Operand.text ++
            [(labelIn symbols target).getD ("$" ++ hexWord target)])) ∧
    (∀ (pc : UInt16) (src : γ) (next : UInt16) (symbols : Option SymbolTable),
      let i := (fetch pc src).1.instruction
      (i = ⟨.jp, some (.pair .hl), none⟩ ∨
        i.mnemonic ≠ .jr ∧ i.mnemonic ≠ .jp ∧ i.mnemonic ≠ .call) →
      i.textAt next (labelIn symbols) = i.text) := by
  constructor
  · intro c bus symbols f i target hhalted hstopped hjump hmet
    obtain ⟨t, ht⟩ := Operation.exists_target?_eq_some f.next hjump
    obtain ⟨hok, hpc⟩ := c.pc_step_of_target?_eq_some hhalted hstopped ht hmet
    refine ⟨hok, ?_⟩
    rw [show target = t from hpc]
    exact Operation.textAt_of_target?_eq_some ht (labelIn symbols)
  · intro pc src next symbols i hfixed
    exact Operation.textAt_of_target?_eq_none (Operation.target?_eq_none next hfixed) next _

/-- A relative jump at the start of memory that leads back across it, to a labelled address at the
end; and a jump to `HL`, which is written the same everywhere. -/
theorem jump_back_across_start_of_memory :
    let c : Cpu := {}
    let m : Memory := { cartridge := ⟨#[0x18, 0xFD], by decide⟩ }
    let symbols : SymbolTable := ⟨[⟨"Top", .rom 0, 0xFFFF, 0⟩]⟩
    let i := (fetch c.regs.pc m).1.instruction
    let i' := (fetch 0 (bytesAt [0xE9] 0)).1.instruction
    (i.mnemonic = .jr ∧ ∀ cc, .cond cc ∈ i.operands → c.regs.flags.meets cc = true) ∧
      (∃ n, (c.step m).1 = .ok n) ∧ (c.step m).2.1.regs.pc = 0xFFFF ∧
      i.textAt 2 (labelIn (some symbols)) = "JR Top" ∧
      i' = ⟨.jp, some (.pair .hl), none⟩ ∧ i'.textAt 0x150 (labelIn (some symbols)) = "JP HL" := by
  intro c m symbols i i'
  have hi : i = ⟨.jr, some (.disp (-3)), none⟩ := by decide
  have hmnemonic : i.mnemonic = .jr := by rw [hi]
  have hmet (cc : Cond) (hcc : .cond cc ∈ i.operands) : c.regs.flags.meets cc = true := by
    rw [hi] at hcc
    cases List.mem_singleton.mp hcc
  have hi' : i' = ⟨.jp, some (.pair .hl), none⟩ := by decide
  have hpc : (c.step m).2.1.regs.pc = 0xFFFF := by decide
  have hnext : (fetch c.regs.pc m).1.next = 2 := by decide
  have hshown := @shown_target_is_taken Memory (UInt16 → UInt8) _ _
  obtain ⟨hok, htext⟩ := hshown.1 c m (some symbols) rfl rfl (.inl hmnemonic) hmet
  have htext' := hshown.2 0 (bytesAt [0xE9] 0) 0x150 (some symbols) (.inl hi')
  refine ⟨⟨hmnemonic, hmet⟩, hok, hpc, ?_, hi', ?_⟩
  · rw [hpc, hnext] at htext
    refine htext.trans ?_
    change Instruction.joined i.mnemonic (i.operands.dropLast.map Operand.text ++ ["Top"]) = _
    rw [hi]
    decide
  · exact htext'.trans (congrArg Instruction.text hi')

end Sm83
