import Mathlib.Tactic.ByContra
import Sm83.Machine
import Sm83.Proofs.Cpu.Failure

/-!
# Decoding and execution agree

The decoder and the execution of instructions know the instruction set from two sides: the opcode
tables produce instructions, and `Instruction.operation?` accepts those whose operands fit their
mnemonic. This file proves that the two sides fit. Every byte source, at every address, yields
an instruction of one to three bytes that is executed on any registers and any bus, unless its
first byte is one of the eleven unassigned opcodes; and these are the only errors of the
processor.

## Main results

* `decoded_instruction_executes` — what is decoded is executed, or is an unassigned opcode.
-/

namespace Sm83

section Fetch

variable {β : Type u} [ByteSource β]

theorem isInvalid_instruction_fetch (pc : UInt16) (src : β) :
    (fetch pc src).1.instruction.isInvalid = true ↔
      (ByteSource.read pc src).1 ∈ unassignedOpcodes := by
  constructor
  · intro h
    by_contra hmem
    rw [Fetched.instruction, (operation_fetch_encodable hmem).isInvalid_eq_false] at h
    exact Bool.false_ne_true h
  · intro hmem
    rw [Fetched.instruction, operation_fetch_unassigned hmem]
    rfl

theorem vector_mem_of_mem_operands_fetch {pc : UInt16} {src : β} {v : UInt8}
    (h : Operand.vector v ∈ (fetch pc src).1.instruction.operands) : v ∈ restartVectors := by
  by_cases hmem : (ByteSource.read pc src).1 ∈ unassignedOpcodes
  · rw [Fetched.instruction, operation_fetch_unassigned hmem] at h
    simp [Operation.toInstruction, Instruction.operands] at h
  · exact (operation_fetch_encodable hmem).vector_mem_of_mem_operands h

end Fetch

section Execute

variable {β : Type u} {γ : Type v} [ByteSource β] [Bus γ]

theorem execute_instruction_fetch_of_assigned {pc : UInt16} {src : β}
    (h : (ByteSource.read pc src).1 ∉ unassignedOpcodes) (s : Core γ) :
    ∃ o, ((fetch pc src).1.instruction.execute s).1 = .ok o := by
  rw [Fetched.instruction, Instruction.execute_toInstruction,
    (operation_fetch_encodable h).execute_eq]
  exact ⟨_, rfl⟩

theorem execute_instruction_fetch_of_unassigned {pc : UInt16} {src : β}
    (h : (ByteSource.read pc src).1 ∈ unassignedOpcodes) (s : Core γ) :
    ((fetch pc src).1.instruction.execute s).1 =
      .error (.invalidOpcode (ByteSource.read pc src).1 (s.regs.pc - 1)) := by
  rw [Fetched.instruction, Instruction.execute_toInstruction, operation_fetch_unassigned h]
  rfl

/-- A processor that is awake fails exactly at the unassigned opcodes, and its error names the
opcode and its address. -/
theorem Cpu.step_eq_error_iff {c : Cpu} (hhalted : c.halted = false) (hstopped : c.stopped = false)
    (bus : γ) (e : CpuError) :
    (c.step bus).1 = .error e ↔ (ByteSource.read c.regs.pc bus).1 ∈ unassignedOpcodes ∧
      e = .invalidOpcode (ByteSource.read c.regs.pc bus).1 c.regs.pc := by
  have hawake : ¬ (c.stopped = true ∨ c.halted = true ∧ Bus.pending bus = 0) := by
    rw [hstopped, hhalted]
    rintro (h | ⟨h, -⟩) <;> cases h
  rw [step_fails_iff, and_iff_right hawake]

/-- **Decoding and execution agree.** Let `f` be what is decoded from a byte source at an address
`pc`. Its encoding has one to three bytes and ends before `f.next`; its bit operands are below 8,
and its vector operands are restart vectors. It stands for an opcode byte without a meaning
exactly when the byte at `pc` is one of the unassigned opcodes, and only then its execution
fails, on any registers and any bus, with the opcode as the reason. A processor that is awake
fails exactly at those opcodes, and names the opcode that it read and the address where it read
it. -/
theorem decoded_instruction_executes (pc : UInt16) (src : β) (s : Core γ) (c : Cpu) (bus : γ) :
    let f := (fetch pc src).1
    let opcode := (ByteSource.read pc src).1
    (1 ≤ f.length ∧ f.length ≤ 3 ∧ f.next = pc + UInt16.ofNat f.length) ∧
    (∀ i, Operand.bit i ∈ f.instruction.operands → i < 8) ∧
    (∀ v, Operand.vector v ∈ f.instruction.operands → v ∈ restartVectors) ∧
    (f.instruction.isInvalid = true ↔ opcode ∈ unassignedOpcodes) ∧
    (f.instruction.isInvalid = false → ∃ o, (f.instruction.execute s).1 = .ok o) ∧
    (f.instruction.isInvalid = true →
      (f.instruction.execute s).1 = .error (.invalidOpcode opcode (s.regs.pc - 1))) ∧
    (c.halted = false → c.stopped = false → ∀ e, (c.step bus).1 = .error e ↔
      (ByteSource.read c.regs.pc bus).1 ∈ unassignedOpcodes ∧
        e = .invalidOpcode (ByteSource.read c.regs.pc bus).1 c.regs.pc) := by
  dsimp only
  refine ⟨⟨?_, ?_, next_fetch pc src⟩, fun i => Operation.bit_lt_of_mem_operands,
    fun v => vector_mem_of_mem_operands_fetch, isInvalid_instruction_fetch pc src,
    fun h => ?_, fun h => ?_, fun hhalted hstopped => c.step_eq_error_iff hhalted hstopped bus⟩
  · rw [length_fetch]
    exact Template.one_le_size _
  · rw [length_fetch]
    exact Template.size_le_three _
  · refine execute_instruction_fetch_of_assigned (fun hmem => ?_) s
    rw [(isInvalid_instruction_fetch pc src).mpr hmem] at h
    exact Bool.false_ne_true h.symm
  · exact execute_instruction_fetch_of_unassigned ((isInvalid_instruction_fetch pc src).mp h) s

end Execute

/-- At the opcode `0xD3` at the start of a cartridge, the processor fails and says so. -/
theorem step_fails_at_unassigned :
    let m : Memory := { cartridge := ⟨#[0xD3], by decide⟩ }
    (({} : Cpu).halted = false ∧ ({} : Cpu).stopped = false) ∧
      (({} : Cpu).step m).1 = .error (.invalidOpcode 0xD3 0) := by
  intro m
  have h :=
    (decoded_instruction_executes 0 (fun _ : UInt16 => (0 : UInt8)) ⟨{}, m⟩ {} m).2.2.2.2.2.2
  exact ⟨⟨rfl, rfl⟩, (h rfl rfl _).mpr ⟨by decide, rfl⟩⟩

end Sm83
