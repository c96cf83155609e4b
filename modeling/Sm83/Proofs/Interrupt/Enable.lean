import Sm83.Proofs.Machine.Step
import Sm83.Proofs.Operation.Frame

/-!
# The delayed enabling of interrupts

`EI` enables interrupts one operation late: it sets a latch, and the next operation, unless it
withdraws the latch, ends with interrupts enabled. `DI` and `RETI` act at once. What an executed
operation leaves of the interrupt enable and of the latch is a function of the operation and of
the two bits before it; idle slots and failures leave both as they are. All that can be said of
runs follows from that.

## Main results

* `Operation.ime_effect` — only `DI` and `RETI` write the interrupt enable.
* `Cpu.latches_step_of_executes`, `Cpu.latches_step_of_not_executes` — the two bits after a step of
  the processor.
* `Machine.latches_step_of_executes`, `Machine.latches_step_of_not_executes` — the two bits after a
  step of the machine, which may dispatch an interrupt.
* `Machine.enabling_step`, `Machine.exists_enabling_step` — the steps that enable interrupts.
* `Machine.quiet_step` — the steps that keep interrupts disabled and dispatch none.
* `interrupt_enable_law` — all of this together.
-/

namespace Sm83

/-! ### Operations -/

section Operations

variable {β : Type u} [Bus β]

theorem Operation.setsIme_eq_true_iff {op : Operation} :
    op.setsIme = true ↔ op = .di ∨ op = .reti := by
  cases op <;> simp [setsIme]

/-- Only `DI` and `RETI` write the interrupt enable. -/
theorem Operation.ime_effect (op : Operation) (s : Core β) :
    (op.effect s).regs.ime = true ↔ op = .reti ∨ op ≠ .di ∧ s.regs.ime = true := by
  cases hset : op.setsIme with
  | true =>
    rcases setsIme_eq_true_iff.mp hset with rfl | rfl <;> simp [effect, Core.modifyRegs]
  | false =>
    have hneither : ¬(op = .di ∨ op = .reti) :=
      mt setsIme_eq_true_iff.mpr (Bool.eq_false_iff.mp hset)
    obtain ⟨hdi, hreti⟩ := not_or.mp hneither
    rw [(op.frame_effect s).ime hset]
    simp [hdi, hreti]

theorem Operation.control_eq_enableInterrupts_iff {op : Operation} :
    op.control = .enableInterrupts ↔ op = .ei := by
  cases op <;> simp [control]

theorem Operation.control_eq_disableInterrupts_iff {op : Operation} :
    op.control = .disableInterrupts ↔ op = .di := by
  cases op <;> simp [control]

end Operations

/-! ### Steps of the processor -/

namespace Cpu

variable {β : Type u} [Bus β] {c : Cpu} {bus : β} {op : Operation}

theorem eiPending_executed : (c.executed op bus).1.eiPending = true ↔ op = .ei := by
  simp only [executed, settle, beq_iff_eq, Operation.control_eq_enableInterrupts_iff]

/-- After an operation interrupts are enabled if it is `RETI`, or if it is not `DI` and they were
enabled or about to be. -/
theorem ime_executed : (c.executed op bus).1.regs.ime = true ↔
    op = .reti ∨ op ≠ .di ∧ (c.regs.ime = true ∨ c.eiPending = true) := by
  have heffect : (op.effect (c.fetched bus)).regs.ime = true ↔
      op = .reti ∨ op ≠ .di ∧ c.regs.ime = true := op.ime_effect (c.fetched bus)
  by_cases hlatch : c.eiPending = true
  · by_cases hdi : op = .di
    · subst hdi
      simp [executed, settle, Operation.control, Operation.effect, Core.modifyRegs]
    · have hcontrol : op.control ≠ .disableInterrupts :=
        mt Operation.control_eq_disableInterrupts_iff.mp hdi
      simp [executed, settle, hlatch, hcontrol, hdi]
  · simp [executed, settle, hlatch, heffect]

/-- The interrupt enable and the latch of `EI` after a step that executes an operation. -/
theorem latches_step_of_executes {n : Nat} (hup : c.upcoming? bus = some op)
    (hok : (c.step bus).1 = .ok n) :
    ((c.step bus).2.1.eiPending = true ↔ op = .ei) ∧
      ((c.step bus).2.1.regs.ime = true ↔
        op = .reti ∨ op ≠ .di ∧ (c.regs.ime = true ∨ c.eiPending = true)) := by
  rcases c.step_cases bus with ⟨hnone, -⟩ | ⟨op', hop', -, hstep⟩ | ⟨b, -, -, -, hstep⟩
  · rw [hup] at hnone
    cases hnone
  · obtain rfl : op = op' := Option.some.inj (hup.symm.trans hop')
    rw [hstep]
    exact ⟨eiPending_executed, ime_executed⟩
  · rw [hstep] at hok
    cases hok

theorem step_of_upcoming?_ei (h : c.upcoming? bus = some .ei) : (c.step bus).1 = .ok 4 := by
  rcases c.step_cases bus with ⟨hnone, -⟩ | ⟨op, hop, -, hstep⟩ | ⟨b, -, hb, -⟩
  · cases hnone.symm.trans h
  · obtain rfl : op = .ei := Option.some.inj (hop.symm.trans h)
    rw [hstep]
    rfl
  · cases hb.symm.trans h

/-- Idle slots and failures change neither the interrupt enable nor the latch of `EI`, and they do
not stop the processor. -/
theorem latches_step_of_not_executes
    (h : ∀ op, c.upcoming? bus = some op → ∀ n, (c.step bus).1 ≠ .ok n) :
    (c.step bus).2.1.eiPending = c.eiPending ∧ (c.step bus).2.1.regs.ime = c.regs.ime ∧
      (c.step bus).2.1.stopped = c.stopped := by
  rcases c.step_cases bus with ⟨-, hstep⟩ | ⟨op, hop, -, hstep⟩ | ⟨b, -, -, -, hstep⟩
  · rw [hstep]
    exact ⟨rfl, rfl, rfl⟩
  · exact absurd (congrArg Prod.fst hstep) (h op hop _)
  · rw [hstep]
    exact ⟨rfl, rfl, rfl⟩

end Cpu

/-! ### Steps of the machine -/

namespace Machine

variable {m : Machine} {op : Operation}

/-- The interrupt enable and the latch of `EI` after a step that executes an operation. -/
theorem latches_step_of_executes (h : m.Executes op) :
    (m.step.2.cpu.eiPending = true ↔ op = .ei) ∧
      (m.step.2.cpu.regs.ime = true ↔ m.dispatched? = none ∧
        (op = .reti ∨ op ≠ .di ∧ (m.cpu.regs.ime = true ∨ m.cpu.eiPending = true))) := by
  obtain ⟨hup, hok⟩ := h
  obtain ⟨n, hn⟩ := step_eq_ok_iff.mp hok
  obtain ⟨hlatch, hime⟩ := Cpu.latches_step_of_executes hup hn
  refine ⟨by rw [eiPending_step, hlatch], ?_⟩
  rw [ime_step, Bool.and_eq_true, Option.isNone_iff_eq_none, hime, and_comm]

/-- Only `EI` leaves its latch set. -/
theorem eiPending_step_of_ne_ei (h : m.Executes op) (hei : op ≠ .ei) :
    m.step.2.cpu.eiPending = false :=
  Bool.eq_false_iff.mpr (mt (latches_step_of_executes h).1.mp hei)

/-- A step that executes nothing keeps the latch of `EI`, and the interrupt enable unless it
dispatches an interrupt. -/
theorem latches_step_of_not_executes (h : ∀ op, ¬ m.Executes op) :
    m.step.2.cpu.eiPending = m.cpu.eiPending ∧
      m.step.2.cpu.regs.ime = (m.cpu.regs.ime && m.dispatched?.isNone) := by
  have hcpu : ∀ op, m.cpu.upcoming? m.memory = some op →
      ∀ n, (m.cpu.step m.memory).1 ≠ .ok n :=
    fun op hup n hn => h op ⟨hup, step_eq_ok_iff.mpr ⟨n, hn⟩⟩
  obtain ⟨hlatch, hime, -⟩ := Cpu.latches_step_of_not_executes hcpu
  exact ⟨by rw [eiPending_step, hlatch], by rw [ime_step, hime]⟩

/-- No step executes two operations. -/
theorem Executes.unique {op' : Operation} (h : m.Executes op) (h' : m.Executes op') : op = op' :=
  Option.some.inj (h.1.symm.trans h'.1)

/-- If the processor's part of a step enables interrupts, it executes `RETI`, or finds the latch of
`EI` set and executes something other than `DI`. -/
theorem executes_of_ime_cpu_step (hbefore : m.cpu.regs.ime = false)
    (hafter : (m.cpu.step m.memory).2.1.regs.ime = true) :
    ∃ op, m.Executes op ∧ (op = .reti ∨ m.cpu.eiPending = true ∧ op ≠ .di) := by
  by_cases hexec : ∃ op, m.Executes op
  · obtain ⟨op, hop⟩ := hexec
    obtain ⟨n, hn⟩ := step_eq_ok_iff.mp hop.2
    have hime := (Cpu.latches_step_of_executes hop.1 hn).2.mp hafter
    simp only [hbefore, Bool.false_eq_true, false_or] at hime
    exact ⟨op, hop, hime.imp_right And.symm⟩
  · rw [not_exists] at hexec
    have hcpu := Cpu.latches_step_of_not_executes fun op hup n hn =>
      hexec op ⟨hup, step_eq_ok_iff.mpr ⟨n, hn⟩⟩
    rw [hcpu.2.1, hbefore] at hafter
    cases hafter

/-- So does a step after which interrupts are enabled, and before which they were not. -/
theorem enabling_step (hbefore : m.cpu.regs.ime = false) (hafter : m.step.2.cpu.regs.ime = true) :
    ∃ op, m.Executes op ∧ (op = .reti ∨ m.cpu.eiPending = true ∧ op ≠ .di) := by
  rw [ime_step, Bool.and_eq_true] at hafter
  exact executes_of_ime_cpu_step hbefore hafter.1

/-- With interrupts disabled, a step that executes neither `RETI` nor, with the latch of `EI` set,
anything but `DI` does not dispatch an interrupt and leaves interrupts disabled. -/
theorem quiet_step (hime : m.cpu.regs.ime = false)
    (h : ∀ op, m.Executes op → op ≠ .reti ∧ (m.cpu.eiPending = true → op = .di)) :
    m.dispatched? = none ∧ m.step.2.cpu.regs.ime = false := by
  have hcpu : (m.cpu.step m.memory).2.1.regs.ime = false := by
    rw [Bool.eq_false_iff]
    intro hafter
    obtain ⟨op, hop, hreti | ⟨hlatch, hdi⟩⟩ := executes_of_ime_cpu_step hime hafter
    · exact (h op hop).1 hreti
    · exact hdi ((h op hop).2 hlatch)
  refine ⟨?_, by rw [ime_step, hcpu, Bool.false_and]⟩
  rw [Option.eq_none_iff_forall_ne_some]
  exact fun i hi => Bool.false_ne_true (hcpu.symm.trans (ime_of_dispatched? hi))

/-- If interrupts are disabled at one moment of a run and enabled at a later one, some step in
between enables them. -/
theorem exists_enabling_step {i j : Nat} (hij : i ≤ j) (hi : (m.after i).cpu.regs.ime = false)
    (hj : (m.after j).cpu.regs.ime = true) :
    ∃ k, i ≤ k ∧ k < j ∧ (m.after k).cpu.regs.ime = false ∧
      (m.after (k + 1)).cpu.regs.ime = true := by
  induction hij with
  | refl =>
    rw [hi] at hj
    cases hj
  | @step j hij ih =>
    by_cases hlast : (m.after j).cpu.regs.ime = true
    · obtain ⟨k, hik, hkj, hk⟩ := ih hlast
      exact ⟨k, hik, Nat.lt_succ_of_lt hkj, hk⟩
    · exact ⟨j, hij, Nat.lt_succ_self j, Bool.eq_false_iff.mpr hlast, hj⟩

/-- If interrupts are disabled before a run and enabled after it, some step of the run enables
them. -/
theorem exists_enabling_step_of_run {budget : Nat} (hbefore : m.cpu.regs.ime = false)
    (hafter : (m.run budget).2.cpu.regs.ime = true) :
    ∃ k < budget, (m.after k).cpu.regs.ime = false ∧
      (m.after (k + 1)).cpu.regs.ime = true := by
  obtain ⟨n, hn, hrun⟩ := snd_run budget m
  rw [hrun] at hafter
  obtain ⟨k, -, hk, henabling⟩ := exists_enabling_step (m := m) (Nat.zero_le n) hbefore hafter
  exact ⟨k, Nat.lt_of_lt_of_le hk hn, henabling⟩

end Machine

/-! ### The law -/

/-- **The law of `EI`, `DI` and `RETI`.** Let a processor that is awake succeed in executing an
operation. Afterwards the latch of `EI` is set exactly if the operation is `EI`, and interrupts
are enabled exactly if it is `RETI`, or if it is not `DI` and they were enabled or the latch was
set. So a step of the machine that executes `EI` with interrupts disabled and the latch clear
dispatches nothing, whatever is requested and enabled; and wherever in a run interrupts become
enabled, a step executes `RETI`, or finds the latch set and executes something other than `DI`. -/
theorem interrupt_enable_law {β : Type u} [Bus β] (c : Cpu) (bus : β) (m : Machine) :
    (c.halted = false → c.stopped = false → ∀ n, (c.step bus).1 = .ok n →
      ((c.step bus).2.1.eiPending = true ↔ (fetch c.regs.pc bus).1.operation = .ei) ∧
      ((c.step bus).2.1.regs.ime = true ↔ (fetch c.regs.pc bus).1.operation = .reti ∨
        (fetch c.regs.pc bus).1.operation ≠ .di ∧ (c.regs.ime = true ∨ c.eiPending = true))) ∧
    (m.upcoming? = some .ei → m.cpu.regs.ime = false → m.cpu.eiPending = false →
      m.dispatched? = none ∧ m.step.1 = .ok 4 ∧ m.step.2.cpu.regs.ime = false) ∧
    (∀ n, (m.after n).cpu.regs.ime = false → (m.after (n + 1)).cpu.regs.ime = true →
      ∃ op, (m.after n).Executes op ∧
        (op = .reti ∨ (m.after n).cpu.eiPending = true ∧ op ≠ .di)) ∧
    (∀ budget, m.cpu.regs.ime = false → (m.run budget).2.cpu.regs.ime = true →
      ∃ k < budget, (m.after k).cpu.regs.ime = false ∧ ∃ op, (m.after k).Executes op ∧
        (op = .reti ∨ (m.after k).cpu.eiPending = true ∧ op ≠ .di)) := by
  refine ⟨fun hhalted hstopped n hok => ?_, fun hup hime hlatch => ?_, fun n hbefore hafter => ?_,
    fun budget hbefore hafter => ?_⟩
  · exact Cpu.latches_step_of_executes (Cpu.upcoming?_of_awake hhalted hstopped) hok
  · have hok : (m.cpu.step m.memory).1 = .ok 4 := Cpu.step_of_upcoming?_ei hup
    have hexec : m.Executes .ei := Machine.executes_iff.mpr ⟨hup, trivial⟩
    obtain ⟨hdispatched, hafter⟩ := Machine.quiet_step hime fun op hop => by
      rw [hop.unique hexec, hlatch]
      exact ⟨Operation.noConfusion, fun h => absurd h Bool.false_ne_true⟩
    refine ⟨hdispatched, ?_, hafter⟩
    rw [Machine.clocks_step_of_dispatched? hok, hdispatched]
    rfl
  · rw [Machine.after_succ] at hafter
    exact Machine.enabling_step hbefore hafter
  · obtain ⟨k, hk, hdisabled, henabled⟩ := Machine.exists_enabling_step_of_run hbefore hafter
    rw [Machine.after_succ] at henabled
    exact ⟨k, hk, hdisabled, Machine.enabling_step hdisabled henabled⟩

/-- After `EI` at the start of a cartridge the interrupt that is pending waits; without one,
interrupts are enabled at the end of the `NOP` that follows. -/
theorem ei_waits_for_next_operation :
    let memory : Memory := { cartridge := ⟨#[0xFB, 0x00], by decide⟩ }
    let waiting : Machine := ⟨{}, { memory with requests := 0x01, enables := 0x01 }⟩
    let quiet : Machine := ⟨{}, memory⟩
    (waiting.cpu.step waiting.memory).2.1.eiPending = true ∧
      waiting.dispatched? = none ∧ waiting.step.1 = .ok 4 ∧
      (quiet.after 1).cpu.regs.ime = false ∧ (quiet.after 2).cpu.regs.ime = true ∧
      ∃ op, (quiet.after 1).Executes op ∧
        (op = .reti ∨ (quiet.after 1).cpu.eiPending = true ∧ op ≠ .di) := by
  intro memory waiting quiet
  have hup : waiting.upcoming? = some .ei := by decide
  have hok : (waiting.cpu.step waiting.memory).1 = .ok 4 := Cpu.step_of_upcoming?_ei hup
  have hlaw := interrupt_enable_law waiting.cpu waiting.memory waiting
  obtain ⟨hdispatched, hclocks, -⟩ := hlaw.2.1 hup rfl rfl
  have hbefore : (quiet.after 1).cpu.regs.ime = false := by decide
  have hafter : (quiet.after 2).cpu.regs.ime = true := by decide
  exact ⟨(hlaw.1 rfl rfl 4 hok).1.mpr (by decide), hdispatched, hclocks, hbefore, hafter,
    (interrupt_enable_law quiet.cpu quiet.memory quiet).2.2.1 1 hbefore hafter⟩

end Sm83
