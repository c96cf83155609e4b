import Sm83.Memory.Basic
import Sm83.Proofs.Bus.Journal
import Sm83.Proofs.Operation.Encoding

/-!
# Clocks and machine cycles

A machine cycle of four clocks is spent on every byte that is fetched, on every byte that an
operation reads or writes, and on the few things that some operations do inside the processor.
The clocks of an operation are a table of their own; this file proves that the table is the count
of the machine cycles. The length of the encoding is found in the opcode tables and the accesses
are those of a journal around the bus, so three separate sources agree, for operands in registers
and in memory and for branches that are taken or not. `STOP` is the exception: nothing waits for
the second byte of its encoding.

## Main definitions

* `Operation.internalCycles` — the machine cycles that an operation spends inside the processor.

## Main results

* `Operation.clocks_eq` — the clocks of an operation.
* `clocks_account_for_bus` — the clocks of the execution of what was decoded, with its accesses
  counted on the bus.
* `Cpu.fst_step_eq_of_upcoming?` — the clocks of a step.
-/

namespace Sm83

namespace Operation

/-- The machine cycles that an operation spends inside the processor, on words and on changes of
the program counter, under the flags before it. -/
def internalCycles (op : Operation) (flags : Flags) : Nat :=
  match op with
  | push _ | rst _ | reti | incPair _ | decPair _ | addHL _ | loadSPHL | loadHLSP _ => 1
  | addSP _ => 2
  | jp cond _ | jr cond _ | call cond _ => if flags.allow cond then 1 else 0
  | ret none => 1
  | ret (some cc) => if flags.meets cc then 2 else 1
  | nop | stop | halt | di | ei | load _ _ | loadImm _ _ | storeAt _ | loadAt _ | storeAbs _
  | loadAbs _ | storeHigh _ | loadHigh _ | storeHighC | loadHighC | loadPair _ _ | storeSP _ | pop _
  | alu _ _ | aluImm _ _ | inc _ | dec _ | rotateA _ | daa | cpl | scf | ccf | shift _ _ | bit _ _
  | res _ _ | set _ _ | jpHL | invalid _ => 0

/-! ### Operations -/

/-- The clocks of an operation are four for each byte of its encoding, for each of its accesses
and for each machine cycle inside the processor. -/
theorem clocks_eq {op : Operation} (hinvalid : ∀ b, op ≠ invalid b) (hstop : op ≠ stop)
    (hload : op ≠ load .atHL .atHL) (r : RegisterFile) (pad : UInt8) :
    op.clocks r.flags = 4 * ((op.encoding pad).length + (op.accesses r).length +
      op.internalCycles r.flags) := by
  cases op with
  | stop => exact absurd rfl hstop
  | invalid b => exact absurd rfl (hinvalid b)
  | load dst src =>
    -- at most one of the two operands is in memory
    cases dst <;> cases src <;> first | rfl | exact absurd rfl hload
  | loadImm x _ | alu _ x | inc x | dec x | shift _ x | bit _ x | res _ x | set _ x =>
    cases x <;> rfl
  | jp cond _ | jr cond _ | call cond _ | ret cond =>
    cases cond with
    | none =>
      simp [clocks, encoding, withWord, accesses, internalCycles, RegisterFile.pushes,
        RegisterFile.pops, Flags.allow]
    | some cc =>
      cases htaken : r.flags.meets cc <;>
        simp [clocks, encoding, withWord, accesses, internalCycles, RegisterFile.pushes,
          RegisterFile.pops, Flags.allow, htaken]
  | _ => rfl

end Operation

/-! ### What was decoded -/

section Decoded

variable {β : Type u} {γ : Type v} [ByteSource β] [Bus γ]

/-- The number of bytes that were fetched enters the clocks of the operation that was found. -/
theorem clocks_operation_fetch {pc : UInt16} {src : β}
    (hinvalid : ∀ b, (fetch pc src).1.operation ≠ .invalid b)
    (hstop : (fetch pc src).1.operation ≠ .stop) (r : RegisterFile) :
    (fetch pc src).1.operation.clocks r.flags = 4 * ((fetch pc src).1.length +
      ((fetch pc src).1.operation.accesses r).length +
      (fetch pc src).1.operation.internalCycles r.flags) := by
  rw [length_fetch_eq pc src 0]
  exact Operation.clocks_eq hinvalid hstop (operation_fetch_ne_load_atHL pc src) r 0

/-- **Clocks account for the bus.** Let `f` be what is decoded at an address of a byte source, with
a meaning and not `STOP`. Its execution succeeds on any registers and any bus, and goes the same
way through a journal that writes every access down in a list `log`. The clocks it takes are four
for each byte of the encoding, for each access in `log` and for each machine cycle inside the
processor. What the memory does on its own, when a page is copied to OAM, is no access and takes no
clocks. -/
theorem clocks_account_for_bus (pc : UInt16) (src : β) (s : Core γ)
    (hvalid : (fetch pc src).1.instruction.isInvalid = false)
    (hstop : (fetch pc src).1.instruction.mnemonic ≠ .stop) :
    let f := (fetch pc src).1
    ∃ o log, (f.instruction.execute s).1 = .ok o ∧
      f.instruction.execute (s.noted []) = (.ok o, (f.instruction.execute s).2.noted log) ∧
      o.clocks = 4 * (f.length + log.length + f.operation.internalCycles s.regs.flags) := by
  intro f
  have hinvalid (b : UInt8) : f.operation ≠ .invalid b := by
    intro hop
    rw [Fetched.instruction, Operation.isInvalid_toInstruction.mpr ⟨b, hop⟩] at hvalid
    exact Bool.false_ne_true hvalid.symm
  have hexecute := Operation.execute_eq_of_ne_invalid hinvalid s
  refine ⟨⟨f.operation.clocks s.regs.flags, f.operation.control⟩, f.operation.accesses s.regs, ?_,
    ?_, clocks_operation_fetch hinvalid ?_ s.regs⟩
  · rw [Fetched.instruction, Instruction.execute_toInstruction, hexecute]
  · rw [Fetched.instruction, Instruction.execute_toInstruction, Instruction.execute_toInstruction,
      Operation.execute_noted, hexecute, List.nil_append]
  · intro hop
    exact hstop (congrArg (fun op => op.toInstruction.mnemonic) hop)

/-- A return on the condition that the zero flag is clear, when it is: five machine cycles, one for
the opcode, two for the stack and two inside. -/
theorem clocks_of_taken_return :
    let f := (fetch 0 (bytesAt [0xC0] 0)).1
    let s : Core Memory := ⟨{}, {}⟩
    (f.instruction.isInvalid = false ∧ f.instruction.mnemonic ≠ .stop) ∧
      ∃ o log, (f.instruction.execute s).1 = .ok o ∧
        f.instruction.execute (s.noted []) = (.ok o, (f.instruction.execute s).2.noted log) ∧
        o.clocks = 4 * (1 + log.length + 2) := by
  intro f s
  have hvalid : f.instruction.isInvalid = false := by decide
  have hstop : f.instruction.mnemonic ≠ .stop := by decide
  exact ⟨⟨hvalid, hstop⟩, clocks_account_for_bus 0 (bytesAt [0xC0] 0) s hvalid hstop⟩

end Decoded

/-! ### Steps -/

namespace Cpu

variable {γ : Type v} [Bus γ]

/-- The clocks of a step that executes an operation are four for each of its accesses, those of the
fetch included, and for each machine cycle inside the processor. -/
theorem fst_step_eq_of_upcoming? {c : Cpu} {bus : γ} {op : Operation}
    (hup : c.upcoming? bus = some op) (hinvalid : ∀ b, op ≠ .invalid b) (hstop : op ≠ .stop) :
    (c.step bus).1 =
      .ok (4 * ((c.accesses bus).length + op.internalCycles c.regs.flags)) := by
  have haccesses : (c.accesses bus).length = (fetch c.regs.pc bus).1.length +
      (op.accesses (c.fetched bus).regs).length := by
    simp [accesses, hup, fetchAccesses]
  obtain ⟨hidle, -⟩ | ⟨op', hop', -, hstep⟩ | ⟨b, -, hop', -, -⟩ := c.step_cases bus
  · rw [hup] at hidle
    cases hidle
  · obtain rfl := Option.some.inj (hup.symm.trans hop')
    obtain ⟨rfl, -⟩ := step_of_upcoming?_eq_some hup
    rw [hstep, haccesses]
    exact congrArg Except.ok (clocks_operation_fetch hinvalid hstop (c.fetched bus).regs)
  · exact absurd (Option.some.inj (hup.symm.trans hop')) (hinvalid b)

end Cpu

end Sm83
