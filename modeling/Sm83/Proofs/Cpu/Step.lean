import Sm83.Proofs.Operation.OpcodeTables

/-!
# Steps of the processor

A step of the processor is one of three things: an idle slot, the execution of an encodable
operation, or the failure at an opcode byte without a meaning. What the step does in each case is
stated once, in `Cpu.step_cases`; properties of all steps are derived from it.

## Main definitions

* `Cpu.upcoming?` — the operation that the next step executes, if it is not an idle slot.
* `Cpu.fetched` — registers and bus when the operation at the program counter has been read.
* `Cpu.dispatch?` — the interrupt that is dispatched when the processor is asked to.

## Main results

* `Cpu.step_cases` — the three kinds of steps.
* `Cpu.serviceInterrupts_of_dispatch?_none`, `Cpu.serviceInterrupts_of_dispatch?_some` — what the
  service of interrupts does.
-/

namespace Sm83

namespace Cpu

variable {β : Type u} [Bus β]

/-! ### Execution of the operation at the program counter -/

/-- Registers and bus when the operation at the program counter has been read and is about to be
executed. -/
def fetched (c : Cpu) (bus : β) : Core β where
  regs := { c.regs with pc := (fetch c.regs.pc bus).1.next }
  bus := (fetch c.regs.pc bus).2

/-- What an operation leaves of the processor and its bus when it is executed next. -/
def executed (c : Cpu) (op : Operation) (bus : β) : Cpu × β :=
  (c.settle ⟨op.clocks c.regs.flags, op.control⟩ (op.effect (c.fetched bus)).regs,
    (op.effect (c.fetched bus)).bus)

theorem executeNext_of_encodable {c : Cpu} {bus : β} {op : Operation}
    (hop : (fetch c.regs.pc bus).1.operation = op) (h : op.Encodable) :
    c.executeNext bus = (.ok (op.clocks c.regs.flags), c.executed op bus) := by
  have hexec := h.execute_eq (c.fetched bus)
  unfold executeNext executed
  simp only [fetched] at hexec ⊢
  simp only [hop, hexec]

/-- The failure at an opcode byte without a meaning leaves the processor as it was. -/
theorem executeNext_of_mem_unassignedOpcodes {c : Cpu} {bus : β}
    (h : (ByteSource.read c.regs.pc bus).1 ∈ unassignedOpcodes) :
    c.executeNext bus = (.error (.invalidOpcode (ByteSource.read c.regs.pc bus).1 c.regs.pc), c,
      (ByteSource.read c.regs.pc bus).2) := by
  unfold executeNext
  simp only [fetch_of_mem_unassignedOpcodes h, Operation.execute]
  have hpc : c.regs.pc + 1 - 1 = c.regs.pc := by simp
  rw [hpc]

/-! ### The three kinds of steps -/

/-- The operation that the next step executes, or tries to; `none` when the step is an idle
slot. -/
def upcoming? (c : Cpu) (bus : β) : Option Operation :=
  if c.stopped || (c.halted && Bus.pending bus == 0) then none
  else some (fetch c.regs.pc bus).1.operation

theorem upcoming?_of_awake {c : Cpu} {bus : β} (hhalted : c.halted = false)
    (hstopped : c.stopped = false) :
    c.upcoming? bus = some (fetch c.regs.pc bus).1.operation := by
  simp [upcoming?, hhalted, hstopped]

theorem step_of_upcoming?_eq_none {c : Cpu} {bus : β} (h : c.upcoming? bus = none) :
    c.step bus = (.ok idleClocks, c.spend idleClocks, bus) := by
  unfold upcoming? at h
  unfold step
  split_ifs at h ⊢ <;> simp_all

theorem step_of_upcoming?_eq_some {c : Cpu} {bus : β} {op : Operation}
    (h : c.upcoming? bus = some op) :
    (fetch c.regs.pc bus).1.operation = op ∧
      c.step bus = { c with halted := false }.executeNext bus := by
  unfold upcoming? at h
  split_ifs at h with hidle
  simp only [Bool.or_eq_true, not_or, Bool.not_eq_true] at hidle
  exact ⟨Option.some.inj h, by simp [step, hidle]⟩

/-- **The three kinds of steps.** A step is an idle slot, or it executes an encodable operation,
or it fails at an opcode byte without a meaning; a failing step changes nothing but that the wait
of `HALT` is over. -/
theorem step_cases (c : Cpu) (bus : β) :
    (c.upcoming? bus = none ∧ c.step bus = (.ok idleClocks, c.spend idleClocks, bus)) ∨
    (∃ op, c.upcoming? bus = some op ∧ op.Encodable ∧
      c.step bus = (.ok (op.clocks c.regs.flags), { c with halted := false }.executed op bus)) ∨
    (∃ b ∈ unassignedOpcodes, c.upcoming? bus = some (.invalid b) ∧
      b = (ByteSource.read c.regs.pc bus).1 ∧
      c.step bus = (.error (.invalidOpcode b c.regs.pc), { c with halted := false },
        (ByteSource.read c.regs.pc bus).2)) := by
  cases hup : c.upcoming? bus with
  | none => exact .inl ⟨rfl, step_of_upcoming?_eq_none hup⟩
  | some op =>
    obtain ⟨hop, hstep⟩ := step_of_upcoming?_eq_some hup
    rw [hstep]
    by_cases hmem : (ByteSource.read c.regs.pc bus).1 ∈ unassignedOpcodes
    · have hinvalid : op = .invalid (ByteSource.read c.regs.pc bus).1 :=
        hop.symm.trans (operation_fetch_unassigned hmem)
      exact .inr (.inr ⟨_, hmem, congrArg some hinvalid, rfl,
        executeNext_of_mem_unassignedOpcodes hmem⟩)
    · have hencodable : op.Encodable := hop ▸ operation_fetch_encodable hmem
      exact .inr (.inl ⟨op, rfl, hencodable, executeNext_of_encodable hop hencodable⟩)

/-! ### The service of interrupts -/

/-- The interrupt that the processor dispatches when it is asked to: the one of highest priority
among those pending, if interrupts are enabled. -/
def dispatch? (c : Cpu) (bus : β) : Option Interrupt :=
  if c.regs.ime then Interrupt.first? (Bus.pending bus) else none

/-- Without a dispatch, the service of interrupts at most ends the wait of `HALT`. -/
theorem serviceInterrupts_of_dispatch?_none {c : Cpu} {bus : β} (h : c.dispatch? bus = none) :
    c.serviceInterrupts bus = (0,
      { c with halted := c.halted && (Interrupt.first? (Bus.pending bus)).isNone }, bus) := by
  unfold serviceInterrupts
  cases hfirst : Interrupt.first? (Bus.pending bus) with
  | none => simp
  | some i =>
    have hime : c.regs.ime = false := by simpa [dispatch?, hfirst] using h
    simp [hime]

/-- A dispatch withdraws the request, disables interrupts, pushes the program counter and
continues at the interrupt's vector. -/
theorem serviceInterrupts_of_dispatch?_some {c : Cpu} {bus : β} {i : Interrupt}
    (h : c.dispatch? bus = some i) :
    c.serviceInterrupts bus =
      let core :=
        Core.call (⟨{ c.regs with ime := false }, Bus.acknowledge i bus⟩ : Core β) i.vector
      (dispatchClocks, { c with halted := false, regs := core.regs }.spend dispatchClocks,
        core.bus) := by
  unfold dispatch? at h
  split_ifs at h with hime
  simp [serviceInterrupts, h, hime]

end Cpu

end Sm83
