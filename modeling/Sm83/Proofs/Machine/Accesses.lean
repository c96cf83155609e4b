import Sm83.Proofs.Bus.Invariant
import Sm83.Proofs.Machine.Step

/-!
# The accesses of the machine

In a step of the machine the processor accesses memory to execute an operation, and to push the
program counter when it dispatches an interrupt. The timer catches up in between, without any
access. Put around the memory, a journal writes down the accesses of both parts; so a part of the
memory that only certain writes change is moved by the timer alone in a step without such writes.

## Main definitions

* `Machine.accesses` — the accesses of a step, in order.

## Main results

* `Cpu.serviceInterrupts_journal` — the service of interrupts does through a journal what it does
  without it.
* `Machine.accesses_of_ok` — the accesses of a step are those of its two parts.
* `Bus.Invariant.machine_step` — what a step keeps of the memory and its journal.
* `Bus.Frame.machine_step`, `Bus.Frame.memory_step` — a part of the memory in a step without writes
  that change it.
-/

namespace Sm83

/-! ### The service of interrupts -/

section ServiceInterrupts

variable {β : Type u} [Bus β]

/-- The accesses of the service of interrupts: those of the push in a dispatch. -/
def Cpu.serviceAccesses (c : Cpu) (bus : β) : List Access :=
  if (c.dispatch? bus).isSome then c.regs.pushes else []

/-- The service of interrupts does through a journal what it does without it, and the journal grows
by its accesses. -/
theorem Cpu.serviceInterrupts_journal (c : Cpu) (bus : β) (log : List Access) :
    c.serviceInterrupts (⟨bus, log⟩ : Journal β) =
      ((c.serviceInterrupts bus).1, (c.serviceInterrupts bus).2.1,
        ⟨(c.serviceInterrupts bus).2.2, log ++ c.serviceAccesses bus⟩) := by
  have hdispatch : c.dispatch? (⟨bus, log⟩ : Journal β) = c.dispatch? bus := rfl
  cases h : c.dispatch? bus with
  | none =>
    rw [serviceInterrupts_of_dispatch?_none (hdispatch.trans h),
      serviceInterrupts_of_dispatch?_none h, serviceAccesses, h, Option.isSome_none,
      if_neg Bool.false_ne_true, List.append_nil]
    rfl
  | some i =>
    have hcall := Core.call_noted (⟨{ c.regs with ime := false }, Bus.acknowledge i bus⟩ : Core β)
      log i.vector
    rw [serviceInterrupts_of_dispatch?_some (hdispatch.trans h),
      serviceInterrupts_of_dispatch?_some h, serviceAccesses, h, Option.isSome_some, if_pos rfl]
    simp only [Core.noted] at hcall
    simp only [Bus.acknowledge, hcall]
    rfl

/-- The service of interrupts keeps what accesses and the withdrawal of requests keep. -/
theorem Bus.Invariant.serviceInterrupts {P : β → Prop} (h : Bus.Invariant P)
    (hack : ∀ i b, P b → P (Bus.acknowledge i b)) {bus : β} (hbus : P bus) (c : Cpu) :
    P (c.serviceInterrupts bus).2.2 := by
  cases hdispatch : c.dispatch? bus with
  | none => rwa [Cpu.serviceInterrupts_of_dispatch?_none hdispatch]
  | some i =>
    rw [Cpu.serviceInterrupts_of_dispatch?_some hdispatch]
    exact h.write _ _ (h.write _ _ (hack i bus hbus))

/-- The service of interrupts does not change a part of the bus that its push and the withdrawal of
a request do not change. -/
theorem Bus.Frame.serviceInterrupts {γ : Sort v} {W : Set UInt16} {f : β → γ} (h : Bus.Frame W f)
    (hack : ∀ i b, f (Bus.acknowledge i b) = f b) {c : Cpu} {bus : β}
    (hW : ∀ a ∈ W, Access.write a ∉ c.serviceAccesses bus) :
    f (c.serviceInterrupts bus).2.2 = f bus := by
  cases hdispatch : c.dispatch? bus with
  | none => rw [Cpu.serviceInterrupts_of_dispatch?_none hdispatch]
  | some i =>
    have hpush (a : UInt16) (ha : a ∈ W) : a ≠ c.regs.sp - 1 ∧ a ≠ c.regs.sp - 1 - 1 := by
      have hnot := hW a ha
      simpa [Cpu.serviceAccesses, hdispatch, RegisterFile.pushes] using hnot
    rw [Cpu.serviceInterrupts_of_dispatch?_some hdispatch]
    calc f (Bus.write (c.regs.sp - 1 - 1) (lowByte c.regs.pc)
            (Bus.write (c.regs.sp - 1) (highByte c.regs.pc) (Bus.acknowledge i bus)))
      _ = f (Bus.write (c.regs.sp - 1) (highByte c.regs.pc) (Bus.acknowledge i bus)) :=
        h.write (fun ha => (hpush _ ha).2 rfl) _ _
      _ = f (Bus.acknowledge i bus) := h.write (fun ha => (hpush _ ha).1 rfl) _ _
      _ = f bus := hack i bus

end ServiceInterrupts

/-! ### Steps of the machine -/

namespace Machine

/-- The accesses of the processor in a step, in order: what a journal around the memory writes down
while the processor steps, the timer catches up, and an interrupt may be dispatched. -/
def accesses (m : Machine) : List Access :=
  match m.cpu.step ({ bus := m.memory } : Journal Memory) with
  | (.error _, _, journal) => journal.accesses
  | (.ok clocks, cpu, journal) =>
    (cpu.serviceInterrupts { journal with bus := journal.bus.elapse clocks }).2.2.accesses

/-- The accesses of a step that succeeds are those of the processor's part and those of the service
of interrupts. -/
theorem accesses_of_ok {m : Machine} {n : Nat} {cpu : Cpu} {memory : Memory}
    (h : m.cpu.step m.memory = (.ok n, cpu, memory)) :
    m.accesses = m.cpu.accesses m.memory ++ cpu.serviceAccesses (memory.elapse n) := by
  simp only [accesses, Cpu.step_journal, h, Cpu.serviceInterrupts_journal, List.nil_append]

/-- The accesses of a step that fails are those of the processor's part. -/
theorem accesses_of_error {m : Machine} {e : CpuError} {cpu : Cpu} {memory : Memory}
    (h : m.cpu.step m.memory = (.error e, cpu, memory)) :
    m.accesses = m.cpu.accesses m.memory := by
  simp only [accesses, Cpu.step_journal, h, List.nil_append]

end Machine

/-- What accesses, the withdrawal of requests and time keep of the memory and its journal holds of
the memory after a step and the accesses of the step. -/
theorem Bus.Invariant.machine_step {P : Journal Memory → Prop} (h : Bus.Invariant P)
    (hack : ∀ i j, P j → P (Bus.acknowledge i j))
    (helapse : ∀ n j, P j → P { j with bus := j.bus.elapse n }) {m : Machine}
    (hm : P { bus := m.memory }) : P ⟨m.step.2.memory, m.accesses⟩ := by
  have hcpu := h.step hm m.cpu
  rw [Cpu.step_journal, List.nil_append] at hcpu
  rcases hstep : m.cpu.step m.memory with ⟨e | n, cpu, memory⟩
  · rw [hstep] at hcpu
    rw [(Machine.step_of_error hstep).2, Machine.accesses_of_error hstep]
    exact hcpu
  · rw [hstep] at hcpu
    have hservice := h.serviceInterrupts hack (helapse n _ hcpu) cpu
    rw [Cpu.serviceInterrupts_journal] at hservice
    rw [(Machine.step_of_ok hstep).2, Machine.accesses_of_ok hstep]
    exact hservice

/-- In a step of the machine that succeeds and does not write to `W`, only the timer's catching up
changes a part of the memory that other writes do not change. -/
theorem Bus.Frame.machine_step {γ : Sort v} {W : Set UInt16} {f : Memory → γ} (h : Bus.Frame W f)
    (hack : ∀ i b, f (Bus.acknowledge i b) = f b) {m : Machine} {n : Nat} {cpu : Cpu}
    {memory : Memory} (hstep : m.cpu.step m.memory = (.ok n, cpu, memory))
    (hW : ∀ a ∈ W, Access.write a ∉ m.accesses) :
    f memory = f m.memory ∧ f m.step.2.memory = f (memory.elapse n) := by
  rw [Machine.accesses_of_ok hstep] at hW
  constructor
  · have hcpu := h.step (c := m.cpu) (b := m.memory) fun a ha hmem =>
      hW a ha (List.mem_append_left _ hmem)
    rwa [hstep] at hcpu
  · rw [(Machine.step_of_ok hstep).2]
    exact h.serviceInterrupts hack fun a ha hmem => hW a ha (List.mem_append_right _ hmem)

/-- What neither writes nor time change is the same after every step, also after one that fails. -/
theorem Bus.Frame.memory_step {γ : Sort v} {f : Memory → γ} (h : Bus.Frame ∅ f)
    (hack : ∀ i b, f (Bus.acknowledge i b) = f b) (helapse : ∀ m n, f (Memory.elapse m n) = f m)
    (m : Machine) : f m.step.2.memory = f m.memory := by
  have hkept : Bus.Invariant fun j : Journal Memory => f j.bus = f m.memory :=
    ⟨fun a hj => (h.read a _).trans hj, fun a v hj => (h.write id v _).trans hj⟩
  exact hkept.machine_step (fun i j hj => (hack i j.bus).trans hj)
    (fun n j hj => (helapse j.bus n).trans hj) rfl

end Sm83
