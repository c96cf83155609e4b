import Mathlib.Tactic.ByContra
import Mathlib.Tactic.Tauto
import Sm83.Proofs.Interrupt.Enable
import Sm83.Proofs.Timer.Elapse

/-!
# The machine at a standstill

`STOP` ends the execution of operations for good: every step that follows is an idle slot. Still the
timer goes on, and may request its interrupt; and an interrupt that is pending at the end of an idle
slot is dispatched as at any other time, if interrupts are enabled. This file says for which stopped
machines nothing moves but the time, and for how long.

## Main definitions

* `Machine.idled` — the machine after a number of idle slots without a dispatch.
* `Machine.QuietFor` — no interrupt is dispatched in a number of idle slots.
* `Machine.EqualButTime` — two machines differ in nothing but clocks, timer and requests.

## Main results

* `Machine.step_of_idle_of_quiet`, `Machine.dispatched?_eq_none_iff_of_idle` — one idle slot.
* `Machine.after_of_stopped` — the machine after idle slots, and whether one of them dispatched.
* `stopped_machine_frozen_iff` — when a stopped machine is frozen.
-/

namespace Sm83

namespace Machine

/-! ### Idle slots -/

/-- The machine after `n` idle slots without a dispatch: time has passed, and a pending interrupt
has ended the wait of `HALT`. -/
def idled (m : Machine) (n : Nat) : Machine where
  cpu := { m.cpu.spend (Cpu.idleClocks * n) with
    halted := m.cpu.halted &&
      (n == 0 || Bus.pending (m.memory.elapse (Cpu.idleClocks * n)) == 0) }
  memory := m.memory.elapse (Cpu.idleClocks * n)

/-- No interrupt is dispatched in `n` idle slots: interrupts are disabled, or none is pending at the
end of the last one. -/
def QuietFor (m : Machine) (n : Nat) : Prop :=
  n = 0 ∨ m.cpu.regs.ime = false ∨ Bus.pending (m.memory.elapse (Cpu.idleClocks * n)) = 0

instance (m : Machine) (n : Nat) : Decidable (m.QuietFor n) :=
  inferInstanceAs (Decidable (n = 0 ∨ m.cpu.regs.ime = false ∨ _ = (0 : UInt8)))

/-- Two machines differ in nothing but the clocks, the timer and the requests of interrupts. -/
def EqualButTime (m m' : Machine) : Prop :=
  m' = ⟨{ m.cpu with clocks := m'.cpu.clocks },
    { m.memory with timer := m'.memory.timer, requests := m'.memory.requests }⟩

variable {m : Machine}

theorem QuietFor.of_succ {n : Nat} (h : m.QuietFor (n + 1)) : m.QuietFor n := by
  rcases h with h | hime | hpending
  · cases h
  · exact .inr (.inl hime)
  · rw [Nat.mul_succ, Memory.elapse_add] at hpending
    exact .inr (.inr (Memory.pending_eq_zero_of_elapse hpending))

theorem memory_idled (m : Machine) (n : Nat) :
    (m.idled n).memory = m.memory.elapse (Cpu.idleClocks * n) := rfl

theorem idled_zero (m : Machine) : m.idled 0 = m := by
  simp [idled, Memory.elapse_zero, Cpu.spend]

/-! ### One idle slot -/

/-- An idle slot dispatches what is pending when its clocks have passed. -/
theorem dispatched?_eq_none_iff_of_idle (h : m.upcoming? = none) :
    m.dispatched? = none ↔ m.QuietFor 1 := by
  have hstep := Cpu.step_of_upcoming?_eq_none h
  rw [(step_of_ok hstep).1, Cpu.dispatch?_eq_none_iff]
  simp [QuietFor, Cpu.spend]

theorem step_of_idle_of_quiet (h : m.upcoming? = none) (hquiet : m.QuietFor 1) :
    m.step = (.ok Cpu.idleClocks, m.idled 1) := by
  have hstep := Cpu.step_of_upcoming?_eq_none h
  have hnone := (step_of_ok hstep).1.symm.trans ((dispatched?_eq_none_iff_of_idle h).mpr hquiet)
  rw [(step_of_ok hstep).2, Cpu.serviceInterrupts_of_dispatch?_none hnone,
    Memory.isNone_first?_pending]
  rfl

/-! ### Steps of a stopped machine -/

theorem upcoming?_of_stopped (h : m.cpu.stopped = true) : m.upcoming? = none := by
  simp [upcoming?, Cpu.upcoming?, h]

/-- The idle slots of a stopped machine succeed, keep it stopped, and keep the latch of `EI`. -/
theorem step_of_stopped (h : m.cpu.stopped = true) :
    (∃ n, m.step.1 = .ok n) ∧ m.step.2.cpu.stopped = true ∧
      m.step.2.cpu.eiPending = m.cpu.eiPending := by
  have hstep := Cpu.step_of_upcoming?_eq_none (upcoming?_of_stopped h)
  refine ⟨step_eq_ok_iff.mpr ⟨_, congrArg Prod.fst hstep⟩, ?_, ?_⟩
  · rw [stopped_step, hstep]
    exact h
  · rw [eiPending_step, hstep]
    rfl

/-! ### Runs of a stopped machine -/

theorem stopped_after (h : m.cpu.stopped = true) (n : Nat) :
    (m.after n).cpu.stopped = true ∧ (m.after n).cpu.eiPending = m.cpu.eiPending := by
  induction n with
  | zero => exact ⟨h, rfl⟩
  | succ n ih =>
    obtain ⟨-, hstopped, hlatch⟩ := step_of_stopped ih.1
    rw [after_succ]
    exact ⟨hstopped, hlatch.trans ih.2⟩

theorem elapse_idleClocks_succ (m : Memory) (n : Nat) :
    m.elapse (Cpu.idleClocks * (n + 1)) =
      (m.elapse (Cpu.idleClocks * n)).elapse (Cpu.idleClocks * 1) := by
  rw [← Memory.elapse_add, ← Nat.mul_add]

/-- What ends the wait of `HALT` in some idle slots ends it in more of them. -/
theorem halted_idled_idled_one (m : Machine) (n : Nat) :
    ((m.idled n).idled 1).cpu.halted = (m.idled (n + 1)).cpu.halted := by
  have hlast : ((m.idled n).idled 1).cpu.halted = ((m.idled n).cpu.halted &&
      Bus.pending (m.memory.elapse (Cpu.idleClocks * (n + 1))) == 0) := by
    rw [elapse_idleClocks_succ]
    rfl
  have hall : (m.idled (n + 1)).cpu.halted = (m.cpu.halted &&
      Bus.pending (m.memory.elapse (Cpu.idleClocks * (n + 1))) == 0) := rfl
  rw [hlast, hall]
  cases hpending : Bus.pending (m.memory.elapse (Cpu.idleClocks * (n + 1))) == 0 with
  | false => rw [Bool.and_false, Bool.and_false]
  | true =>
    rw [elapse_idleClocks_succ, beq_iff_eq] at hpending
    simp [idled, Memory.pending_eq_zero_of_elapse hpending]

/-- One more idle slot adds to the time. -/
theorem idled_idled_one (m : Machine) (n : Nat) : (m.idled n).idled 1 = m.idled (n + 1) := by
  have hclocks : ((m.idled n).idled 1).cpu.clocks = (m.idled (n + 1)).cpu.clocks :=
    Nat.add_assoc _ _ _
  have hmemory : ((m.idled n).idled 1).memory = (m.idled (n + 1)).memory := by
    rw [memory_idled, memory_idled, memory_idled, elapse_idleClocks_succ m.memory n]
  change (⟨⟨m.cpu.regs, m.cpu.eiPending, ((m.idled n).idled 1).cpu.halted, m.cpu.stopped,
    ((m.idled n).idled 1).cpu.clocks⟩, ((m.idled n).idled 1).memory⟩ : Machine) = _
  rw [m.halted_idled_idled_one n, hclocks, hmemory]
  rfl

theorem quietFor_one_idled_iff {n : Nat} : (m.idled n).QuietFor 1 ↔ m.QuietFor (n + 1) := by
  simp only [QuietFor, Nat.succ_ne_zero, false_or]
  rw [elapse_idleClocks_succ m.memory n]
  rfl

/-- Until an interrupt is dispatched, idle slots do nothing but let time pass; once one was
dispatched, interrupts are disabled, and no other one is. -/
theorem after_of_stopped (h : m.cpu.stopped = true) (n : Nat) :
    (m.QuietFor n → m.after n = m.idled n ∧ m.dispatches n = 0) ∧
      (¬ m.QuietFor n → (m.after n).cpu.regs.ime = false ∧ m.dispatches n = 1) := by
  induction n with
  | zero => exact ⟨fun _ => ⟨m.idled_zero.symm, rfl⟩, fun hquiet => absurd (.inl rfl) hquiet⟩
  | succ n ih =>
    obtain ⟨hquiet, hlate⟩ := ih
    have hstopped := (stopped_after h n).1
    rw [after_succ, dispatches_succ]
    constructor
    · intro hnext
      obtain ⟨hafter, hcount⟩ := hquiet hnext.of_succ
      rw [hafter] at hstopped ⊢
      have hidle := upcoming?_of_stopped hstopped
      have hone := quietFor_one_idled_iff.mpr hnext
      rw [step_of_idle_of_quiet hidle hone, (dispatched?_eq_none_iff_of_idle hidle).mpr hone,
        hcount]
      exact ⟨m.idled_idled_one n, rfl⟩
    · intro hnext
      by_cases hbefore : m.QuietFor n
      · -- the last of the slots dispatches
        obtain ⟨hafter, hcount⟩ := hquiet hbefore
        rw [hafter] at hstopped ⊢
        obtain ⟨i, hi⟩ : ∃ i, (m.idled n).dispatched? = some i := by
          rw [← Option.ne_none_iff_exists', Ne,
            dispatched?_eq_none_iff_of_idle (upcoming?_of_stopped hstopped), quietFor_one_idled_iff]
          exact hnext
        rw [hcount, hi]
        exact ⟨ime_step_of_dispatched? hi, rfl⟩
      · obtain ⟨hime, hcount⟩ := hlate hbefore
        have hidle := upcoming?_of_stopped hstopped
        have hone : (m.after n).QuietFor 1 := .inr (.inl hime)
        rw [step_of_idle_of_quiet hidle hone, (dispatched?_eq_none_iff_of_idle hidle).mpr hone,
          hcount]
        exact ⟨hime, rfl⟩

/-- Idle slots move nothing but the time, unless a pending interrupt ends the wait of `HALT`. -/
theorem equalButTime_idled_iff {n : Nat} :
    m.EqualButTime (m.idled n) ↔ (m.idled n).cpu.halted = m.cpu.halted := by
  refine ⟨fun h => congrArg (·.cpu.halted) h, fun h => ?_⟩
  have hmemory := m.memory.elapse_eq (Cpu.idleClocks * n)
  change (⟨⟨m.cpu.regs, m.cpu.eiPending, (m.idled n).cpu.halted, m.cpu.stopped,
    (m.idled n).cpu.clocks⟩, m.memory.elapse (Cpu.idleClocks * n)⟩ : Machine) = _
  rw [h, hmemory]
  rfl

theorem halted_idled_eq_iff {n : Nat} :
    (m.idled n).cpu.halted = m.cpu.halted ↔ n = 0 ∨ m.cpu.halted = false ∨
      Bus.pending (m.memory.elapse (Cpu.idleClocks * n)) = 0 := by
  cases hhalted : m.cpu.halted <;> simp [idled, hhalted]

/-- The registers after idle slots are those before exactly if no slot dispatched. -/
theorem regs_after_of_stopped (h : m.cpu.stopped = true) (n : Nat) :
    (m.after n).cpu.regs = m.cpu.regs ↔ m.QuietFor n := by
  obtain ⟨hquiet, hlate⟩ := after_of_stopped h n
  constructor
  · intro hregs
    by_contra hnot
    have hime : m.cpu.regs.ime = false := by rw [← hregs, (hlate hnot).1]
    exact hnot (.inr (.inl hime))
  · intro hq
    rw [(hquiet hq).1]
    rfl

theorem equalButTime_after_iff_of_stopped (h : m.cpu.stopped = true) (n : Nat) :
    m.EqualButTime (m.after n) ↔
      n = 0 ∨ Bus.pending (m.memory.elapse (Cpu.idleClocks * n)) = 0 ∨
        m.cpu.regs.ime = false ∧ m.cpu.halted = false := by
  by_cases hquiet : m.QuietFor n
  · rw [((after_of_stopped h n).1 hquiet).1, equalButTime_idled_iff, halted_idled_eq_iff]
    unfold QuietFor at hquiet
    tauto
  · have hregs := mt (regs_after_of_stopped h n).mp hquiet
    refine iff_of_false (fun heq => hregs (congrArg (·.cpu.regs) heq)) fun hright => hquiet ?_
    unfold QuietFor
    tauto

end Machine

/-- **A stopped machine.** Every step of a stopped machine succeeds, and leaves it stopped with the
latch of `EI` as it was. At most one of the steps dispatches an interrupt: one does exactly if
interrupts are enabled and the clocks of the idle slots leave one pending. Without that, the steps
are idle slots, and the registers are what they were. So nothing moves but the clocks, the timer and
the requests of interrupts exactly if no interrupt is pending after the clocks of the idle slots, or
interrupts are disabled and there is no wait of `HALT` to end. -/
theorem stopped_machine_frozen_iff {m : Machine} (h : m.cpu.stopped = true) (n : Nat) :
    (∀ k < n, ∃ clocks, (m.after k).step.1 = .ok clocks) ∧
    ((m.after n).cpu.stopped = true ∧ (m.after n).cpu.eiPending = m.cpu.eiPending) ∧
    (m.dispatches n = if m.QuietFor n then 0 else 1) ∧
    (m.QuietFor n → m.after n = m.idled n) ∧
    ((m.after n).cpu.regs = m.cpu.regs ↔ m.QuietFor n) ∧
    (m.EqualButTime (m.after n) ↔
      n = 0 ∨ Bus.pending (m.memory.elapse (Cpu.idleClocks * n)) = 0 ∨
        m.cpu.regs.ime = false ∧ m.cpu.halted = false) := by
  obtain ⟨hquiet, hlate⟩ := Machine.after_of_stopped h n
  refine ⟨fun k _ => (Machine.step_of_stopped (Machine.stopped_after h k).1).1,
    Machine.stopped_after h n, ?_, fun hq => (hquiet hq).1, Machine.regs_after_of_stopped h n,
    Machine.equalButTime_after_iff_of_stopped h n⟩
  split_ifs with hq
  · exact (hquiet hq).2
  · exact (hlate hq).2

/-- A stopped machine whose timer is about to overflow is frozen for two steps, and dispatches the
timer's interrupt in the third. -/
theorem stopped_machine_frozen_until_overflow :
    let memory : Memory :=
      { requests := 0, enables := 0x04, timer := { div := 4, tima := 0xFF, tac := 0x05 } }
    let m : Machine := ⟨{ regs := { sp := 0xE000, ime := true }, stopped := true }, memory⟩
    m.cpu.stopped = true ∧ m.EqualButTime (m.after 2) ∧ m.dispatches 3 = 1 ∧
      ¬ m.EqualButTime (m.after 3) := by
  intro memory m
  have h : m.cpu.stopped = true := rfl
  have hquiet : Bus.pending (m.memory.elapse (Cpu.idleClocks * 2)) = 0 := by decide
  have hlate : ¬ m.QuietFor 3 := by decide
  have hfrozen := (stopped_machine_frozen_iff h 2).2.2.2.2.2.mpr (.inr (.inl hquiet))
  obtain ⟨-, -, hdispatches, -, hregs, -⟩ := stopped_machine_frozen_iff h 3
  refine ⟨h, hfrozen, ?_, fun heq => hlate (hregs.mp (congrArg (·.cpu.regs) heq))⟩
  rw [hdispatches, if_neg hlate]

/-- From power-on, a program that starts the timer, enables its interrupt and stops is stopped after
eight steps. In the third step after that, the timer's interrupt is dispatched: the program counter
and the stack pointer change, interrupts are disabled, and memory is written. -/
theorem stopped_machine_dispatches :
    let program : Array UInt8 := #[0x3E, 0xFE, 0xE0, 0x05, 0x3E, 0x04, 0xE0, 0xFF, 0x3E, 0x05, 0xE0,
      0x07, 0xFB, 0x10, 0x00]
    let cartridge : Cartridge := ⟨Array.replicate 0x100 0x00 ++ program, by decide +kernel⟩
    let m : Machine := { Machine.powerOn with memory := Machine.powerOn.memory.insert cartridge }
    let before := (m.after 8)
    let after := before.after 3
    before.memory.isFlat = false ∧ before.cpu.stopped = true ∧ after.cpu.stopped = true ∧
      (before.cpu.regs.pc = 0x010F ∧ before.cpu.regs.sp = 0xFFFE ∧ before.cpu.regs.ime = true ∧
        before.memory.read8 0xFFFC = 0x00) ∧
      (after.cpu.regs.pc = 0x0050 ∧ after.cpu.regs.sp = 0xFFFC ∧ after.cpu.regs.ime = false ∧
        after.memory.read8 0xFFFC = 0x0F) := by
  decide +kernel

end Sm83
