import Mathlib.Logic.Function.Iterate
import Sm83.Machine
import Sm83.Proofs.Cpu.Step

/-!
# Steps and runs of the machine

A step of the machine is a step of the processor; if it succeeds, the timer catches up and an
interrupt may be dispatched. This file names what happens in a step and says what the service of
interrupts changes of the processor, so that properties of runs need not look into the step again.

## Main definitions

* `Machine.upcoming?`, `Machine.Executes` — the operation that a step is about to execute, and
  does execute.
* `Machine.dispatched?` — the interrupt that a step dispatches.
* `Machine.after` — the machine after a number of steps.
* `Machine.dispatches` — the number of interrupts dispatched in a number of steps.

## Main results

* `Interrupt.first?_eq_none_iff`, `Cpu.dispatch?_eq_none_iff` — when nothing is dispatched.
* `Cpu.cpu_serviceInterrupts` — what the service of interrupts leaves of the processor.
* `Machine.step_of_error`, `Machine.step_of_ok` — what a step does, by the result of the processor.
* `Machine.executes_iff` — the operations that are executed.
* `Machine.pc_step_of_dispatched?`, `Machine.clocks_step_of_dispatched?` — what can be seen of a
  dispatch.
* `Machine.snd_run` — a run ends in a machine that its steps lead to.
-/

namespace Sm83

/-! ### Pending interrupts -/

/-- No interrupt is found exactly if none of the five bits is set. -/
theorem Interrupt.first?_eq_none_iff (pending : UInt8) :
    first? pending = none ↔ pending &&& allMask = 0 := by
  have hall : ∀ i : Fin 256, first? (UInt8.ofNat i) = none ↔ UInt8.ofNat i &&& allMask = 0 := by
    decide +kernel
  simpa using hall pending.toFin

theorem Memory.isNone_first?_pending (m : Memory) :
    (Interrupt.first? (Bus.pending m)).isNone = (Bus.pending m == 0) := by
  rw [Bool.eq_iff_iff, Option.isNone_iff_eq_none, Interrupt.first?_eq_none_iff, beq_iff_eq,
    pending_eq, UInt8.and_assoc, UInt8.and_self]

theorem Cpu.dispatch?_eq_none_iff (c : Cpu) (m : Memory) :
    c.dispatch? m = none ↔ c.regs.ime = false ∨ Bus.pending m = 0 := by
  have hpending := m.isNone_first?_pending
  rw [Bool.eq_iff_iff, Option.isNone_iff_eq_none, beq_iff_eq] at hpending
  rw [← hpending]
  cases hime : c.regs.ime <;> simp [dispatch?, hime]

/-! ### The frame of the service of interrupts -/

namespace Cpu

variable {β : Type u} [Bus β] (c : Cpu) (bus : β)

/-- After the service of interrupts they are enabled if they were and none was dispatched. -/
theorem ime_serviceInterrupts :
    (c.serviceInterrupts bus).2.1.regs.ime = (c.regs.ime && (c.dispatch? bus).isNone) := by
  cases h : c.dispatch? bus with
  | none => simp [serviceInterrupts_of_dispatch?_none h]
  | some i =>
    rw [serviceInterrupts_of_dispatch?_some h, Option.isNone_some, Bool.and_false]
    rfl

/-- The service of interrupts counts its clocks. Any pending interrupt ends the wait of `HALT`,
dispatched or not, and the other latches stay as they are. -/
theorem cpu_serviceInterrupts : (c.serviceInterrupts bus).2.1 =
    { c with
      regs := (c.serviceInterrupts bus).2.1.regs
      halted := c.halted && (Interrupt.first? (Bus.pending bus)).isNone
      clocks := c.clocks + (c.serviceInterrupts bus).1 } := by
  cases h : c.dispatch? bus with
  | none =>
    rw [serviceInterrupts_of_dispatch?_none h]
    rfl
  | some i =>
    have hfirst : Interrupt.first? (Bus.pending bus) = some i := by
      unfold dispatch? at h
      split_ifs at h
      exact h
    rw [serviceInterrupts_of_dispatch?_some h, hfirst, Option.isNone_some, Bool.and_false]
    rfl

theorem eiPending_serviceInterrupts :
    (c.serviceInterrupts bus).2.1.eiPending = c.eiPending := by
  rw [cpu_serviceInterrupts]

theorem stopped_serviceInterrupts :
    (c.serviceInterrupts bus).2.1.stopped = c.stopped := by
  rw [cpu_serviceInterrupts]

theorem halted_serviceInterrupts : (c.serviceInterrupts bus).2.1.halted =
    (c.halted && (Interrupt.first? (Bus.pending bus)).isNone) := by
  rw [cpu_serviceInterrupts]

theorem clocks_serviceInterrupts :
    (c.serviceInterrupts bus).2.1.clocks = c.clocks + (c.serviceInterrupts bus).1 := by
  rw [cpu_serviceInterrupts]

/-- The service of interrupts takes no time, or that of a dispatch. -/
theorem fst_serviceInterrupts : (c.serviceInterrupts bus).1 =
    if (c.dispatch? bus).isSome then dispatchClocks else 0 := by
  cases h : c.dispatch? bus with
  | none =>
    rw [serviceInterrupts_of_dispatch?_none h]
    rfl
  | some i =>
    rw [serviceInterrupts_of_dispatch?_some h]
    rfl

/-- If nothing is pending, the service of interrupts does nothing. -/
theorem serviceInterrupts_of_first?_eq_none (h : Interrupt.first? (Bus.pending bus) = none) :
    c.serviceInterrupts bus = (0, c, bus) := by
  unfold serviceInterrupts
  rw [h]

end Cpu

namespace Machine

/-! ### What happens in a step -/

/-- The operation that the next step executes, or tries to; `none` when it is an idle slot. -/
def upcoming? (m : Machine) : Option Operation :=
  m.cpu.upcoming? m.memory

/-- The next step succeeds and executes the operation `op`. -/
def Executes (m : Machine) (op : Operation) : Prop :=
  m.upcoming? = some op ∧ ∃ n, m.step.1 = .ok n

/-- The interrupt that the next step dispatches, after the processor and the timer have made their
part of it. -/
def dispatched? (m : Machine) : Option Interrupt :=
  match m.cpu.step m.memory with
  | (.error _, _, _) => none
  | (.ok clocks, cpu, memory) => cpu.dispatch? (memory.elapse clocks)

variable {m : Machine} {cpu : Cpu} {memory : Memory}

theorem step_of_error {e : CpuError} (h : m.cpu.step m.memory = (.error e, cpu, memory)) :
    m.dispatched? = none ∧ m.step = (.error e, ⟨cpu, memory⟩) := by
  simp only [dispatched?, step, h, and_self]

theorem step_of_ok {n : Nat} (h : m.cpu.step m.memory = (.ok n, cpu, memory)) :
    m.dispatched? = cpu.dispatch? (memory.elapse n) ∧
      m.step = (.ok (n + (cpu.serviceInterrupts (memory.elapse n)).1),
        ⟨(cpu.serviceInterrupts (memory.elapse n)).2.1,
          (cpu.serviceInterrupts (memory.elapse n)).2.2⟩) := by
  simp only [dispatched?, step, h, and_self]

/-- A step succeeds as often as the processor's part of it. -/
theorem step_eq_ok_iff : (∃ n, m.step.1 = .ok n) ↔ ∃ n, (m.cpu.step m.memory).1 = .ok n := by
  rcases hstep : m.cpu.step m.memory with ⟨e | n, cpu, memory⟩
  · rw [(step_of_error hstep).2]
  · rw [(step_of_ok hstep).2]
    simp

/-- A step executes the operation that is due if it has a meaning. -/
theorem executes_iff {op : Operation} :
    m.Executes op ↔ m.upcoming? = some op ∧ op.Encodable := by
  refine and_congr_right fun hup => ?_
  rw [step_eq_ok_iff]
  rcases m.cpu.step_cases m.memory with ⟨hnone, -⟩ | ⟨op', hop', hencodable, hstep⟩ |
    ⟨b, -, hb, -, hstep⟩
  · cases hnone.symm.trans hup
  · obtain rfl : op = op' := Option.some.inj (hup.symm.trans hop')
    exact iff_of_true ⟨_, congrArg Prod.fst hstep⟩ hencodable
  · obtain rfl : op = .invalid b := Option.some.inj (hup.symm.trans hb)
    refine iff_of_false ?_ id
    rintro ⟨n, hn⟩
    rw [hstep] at hn
    cases hn

/-- After a step interrupts are enabled if the processor's part of it left them enabled, and none
was dispatched. -/
theorem ime_step :
    m.step.2.cpu.regs.ime =
      ((m.cpu.step m.memory).2.1.regs.ime && m.dispatched?.isNone) := by
  rcases hstep : m.cpu.step m.memory with ⟨e | n, cpu, memory⟩
  · rw [(step_of_error hstep).1, (step_of_error hstep).2, Option.isNone_none, Bool.and_true]
  · rw [(step_of_ok hstep).1, (step_of_ok hstep).2, Cpu.ime_serviceInterrupts]

theorem eiPending_step : m.step.2.cpu.eiPending = (m.cpu.step m.memory).2.1.eiPending := by
  rcases hstep : m.cpu.step m.memory with ⟨e | n, cpu, memory⟩
  · rw [(step_of_error hstep).2]
  · rw [(step_of_ok hstep).2, Cpu.eiPending_serviceInterrupts]

theorem stopped_step : m.step.2.cpu.stopped = (m.cpu.step m.memory).2.1.stopped := by
  rcases hstep : m.cpu.step m.memory with ⟨e | n, cpu, memory⟩
  · rw [(step_of_error hstep).2]
  · rw [(step_of_ok hstep).2, Cpu.stopped_serviceInterrupts]

/-- In a step that dispatches, the processor's part succeeds, and what it and the timer leave asks
for the dispatch. -/
theorem exists_step_of_dispatched? {i : Interrupt} (h : m.dispatched? = some i) :
    ∃ n cpu memory, m.cpu.step m.memory = (.ok n, cpu, memory) ∧
      cpu.dispatch? (memory.elapse n) = some i := by
  rcases hstep : m.cpu.step m.memory with ⟨e | n, cpu, memory⟩
  · rw [(step_of_error hstep).1] at h
    cases h
  · rw [(step_of_ok hstep).1] at h
    exact ⟨n, cpu, memory, rfl, h⟩

theorem step_eq_ok_of_dispatched? {i : Interrupt} (h : m.dispatched? = some i) :
    ∃ n, m.step.1 = .ok n := by
  obtain ⟨n, cpu, memory, hstep, -⟩ := exists_step_of_dispatched? h
  exact ⟨_, congrArg Prod.fst (step_of_ok hstep).2⟩

/-- The processor's part of a step that dispatches leaves interrupts enabled. -/
theorem ime_of_dispatched? {i : Interrupt} (h : m.dispatched? = some i) :
    (m.cpu.step m.memory).2.1.regs.ime = true := by
  obtain ⟨n, cpu, memory, hstep, hdispatch⟩ := exists_step_of_dispatched? h
  rw [hstep]
  unfold Cpu.dispatch? at hdispatch
  split_ifs at hdispatch with hime
  exact hime

/-- A dispatch disables interrupts. -/
theorem ime_step_of_dispatched? {i : Interrupt} (h : m.dispatched? = some i) :
    m.step.2.cpu.regs.ime = false := by
  rw [ime_step, h, Option.isNone_some, Bool.and_false]

/-- After a dispatch the processor is at the vector of the interrupt and does not wait. -/
theorem pc_step_of_dispatched? {i : Interrupt} (h : m.dispatched? = some i) :
    m.step.2.cpu.regs.pc = i.vector ∧ m.step.2.cpu.halted = false := by
  obtain ⟨n, cpu, memory, hstep, hdispatch⟩ := exists_step_of_dispatched? h
  rw [(step_of_ok hstep).2, Cpu.serviceInterrupts_of_dispatch?_some hdispatch]
  exact ⟨rfl, rfl⟩

/-- The clocks of a step are those of the processor's part, and those of a dispatch if there was
one. -/
theorem clocks_step_of_dispatched? {n : Nat} (h : (m.cpu.step m.memory).1 = .ok n) :
    m.step.1 = .ok (n + if m.dispatched?.isSome then Cpu.dispatchClocks else 0) := by
  rcases hstep : m.cpu.step m.memory with ⟨e | k, cpu, memory⟩
  · rw [hstep] at h
    cases h
  · obtain rfl : k = n := by simpa [hstep] using h
    rw [(step_of_ok hstep).1, (step_of_ok hstep).2, Cpu.fst_serviceInterrupts]

/-! ### Runs -/

/-- The machine after a number of steps. A step that fails is followed by the next one like any
other. -/
def after (m : Machine) (n : Nat) : Machine :=
  (fun m => m.step.2)^[n] m

@[simp] theorem after_zero (m : Machine) : m.after 0 = m := rfl

theorem after_succ (m : Machine) (n : Nat) : m.after (n + 1) = (m.after n).step.2 :=
  Function.iterate_succ_apply' _ n m

theorem after_step (m : Machine) (n : Nat) : m.step.2.after n = m.after (n + 1) := rfl

/-- The number of interrupts that the first `n` steps dispatch. -/
def dispatches (m : Machine) (n : Nat) : Nat :=
  (List.range n).countP fun k => (m.after k).dispatched?.isSome

theorem dispatches_succ (m : Machine) (n : Nat) :
    m.dispatches (n + 1) = m.dispatches n + if (m.after n).dispatched?.isSome then 1 else 0 := by
  rw [dispatches, List.range_succ, List.countP_append, List.countP_singleton]
  rfl

theorem snd_runFrom (sofar : Run) (budget : Nat) (m : Machine) :
    ∃ n ≤ budget, (runFrom sofar budget m).2 = m.after n := by
  induction budget generalizing sofar m with
  | zero => exact ⟨0, Nat.le_refl 0, rfl⟩
  | succ budget ih =>
    rcases hstep : m.step with ⟨e | clocks, m'⟩
    · refine ⟨1, Nat.le_add_left 1 budget, ?_⟩
      simp only [runFrom, hstep, after, Function.iterate_one]
    · obtain ⟨n, hn, hrun⟩ := ih { sofar with
        steps := sofar.steps + 1, clocks := sofar.clocks + clocks } m'
      refine ⟨n + 1, Nat.succ_le_succ hn, ?_⟩
      simp only [runFrom, hstep, hrun, ← after_step]

/-- A run with a budget ends in a machine that at most so many steps lead to. -/
theorem snd_run (budget : Nat) (m : Machine) :
    ∃ n ≤ budget, (m.run budget).2 = m.after n :=
  snd_runFrom {} budget m

end Machine

end Sm83
