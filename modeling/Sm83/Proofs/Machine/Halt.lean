import Mathlib.Order.Bounds.Defs
import Sm83.Proofs.Cpu.Failure
import Sm83.Proofs.Interrupt.Dispatch
import Sm83.Proofs.Machine.Standstill
import Sm83.Proofs.Timer.Counter

/-!
# Waiting for an interrupt

`HALT` lets the processor wait until an interrupt is pending. While it waits only the timer goes on,
so only the timer can end the wait, and a number of steps can be made up for by one jump of the
timer over their clocks. The wait ends with the first idle slot at the end of which the timer's
interrupt is pending; it is dispatched in the same step if interrupts are enabled.

## Main definitions

* `Machine.Waits` — the processor waits, and no interrupt is pending.

## Main results

* `Memory.first?_pending_elapse` — what becomes pending as time passes is the timer's interrupt.
* `Machine.Waits.after_eq_idled` — steps of a processor that waits.
* `Machine.Waits.step_idled_of_ime`, `Machine.Waits.step_idled_of_not_ime` — the last step of a
  wait.
* `halt_is_fast_forwarded` — steps and jumps of the timer.
-/

namespace Sm83

/-! ### The timer's interrupt -/

namespace Interrupt

theorem request_and (i : Interrupt) (requests mask : UInt8) :
    i.request true requests &&& mask = requests &&& mask ||| i.mask &&& mask := by
  rw [← UInt8.toNat_inj, toNat_request_and, UInt8.toNat_or, UInt8.toNat_and, UInt8.toNat_and]

/-- The bit of an interrupt stands for that interrupt. -/
theorem first?_mask_and {i : Interrupt} {mask : UInt8} (h : i.mask &&& mask ≠ 0) :
    first? (i.mask &&& mask) = some i := by
  have hall : ∀ x : Fin 256, i.mask &&& UInt8.ofNat x ≠ 0 →
      first? (i.mask &&& UInt8.ofNat x) = some i := by
    cases i <;> decide +kernel
  simpa [h] using hall mask.toFin

/-- If a request makes an interrupt pending where none was, it is the one requested. -/
theorem first?_request_and {i : Interrupt} {raised : Bool} {requests mask : UInt8}
    (hbefore : requests &&& mask = 0) (hafter : i.request raised requests &&& mask ≠ 0) :
    first? (i.request raised requests &&& mask) = some i := by
  cases raised with
  | false => exact absurd hbefore hafter
  | true =>
    rw [request_and, hbefore, UInt8.zero_or] at hafter ⊢
    exact first?_mask_and hafter

end Interrupt

/-- What becomes pending as time passes is the timer's interrupt. -/
theorem Memory.first?_pending_elapse {m : Memory} (hbefore : Bus.pending m = 0) {n : Nat}
    (hafter : Bus.pending (m.elapse n) ≠ 0) :
    Interrupt.first? (Bus.pending (m.elapse n)) = some .timer := by
  cases hmode : m.isFlat with
  | true =>
    rw [elapse_of_isFlat hmode] at hafter
    exact absurd hbefore hafter
  | false =>
    rw [elapse_of_not_isFlat hmode, pending_eq, UInt8.and_assoc] at hafter ⊢
    rw [pending_eq, UInt8.and_assoc] at hbefore
    exact Interrupt.first?_request_and hbefore hafter

namespace Machine

/-! ### The wait -/

/-- While nothing is pending, idle slots let time pass and do nothing else. -/
theorem idled_of_pending_eq_zero {m : Machine} {n : Nat}
    (hquiet : Bus.pending (m.memory.elapse (Cpu.idleClocks * n)) = 0) :
    m.idled n =
      ⟨m.cpu.spend (Cpu.idleClocks * n), m.memory.elapse (Cpu.idleClocks * n)⟩ := by
  have hhalted : (m.idled n).cpu.halted = m.cpu.halted :=
    halted_idled_eq_iff.mpr (.inr (.inr hquiet))
  change (⟨{ m.cpu.spend (Cpu.idleClocks * n) with halted := (m.idled n).cpu.halted }, _⟩ :
    Machine) = _
  rw [hhalted]
  rfl

/-- The processor waits for an interrupt, and none is pending. -/
structure Waits (m : Machine) : Prop where
  halted : m.cpu.halted = true
  running : m.cpu.stopped = false
  quiet : Bus.pending m.memory = 0

namespace Waits

variable {m : Machine} {n : Nat} (h : m.Waits)

include h

theorem upcoming?_eq_none : m.upcoming? = none :=
  Cpu.upcoming?_eq_none_iff.mpr (.inr ⟨h.halted, h.quiet⟩)

/-- The wait goes on as long as nothing is pending. -/
theorem idled (hquiet : Bus.pending (m.memory.elapse (Cpu.idleClocks * n)) = 0) :
    (m.idled n).Waits := by
  rw [idled_of_pending_eq_zero hquiet]
  exact ⟨h.halted, h.running, hquiet⟩

/-- **Steps of a processor that waits** do nothing but let time pass. -/
theorem after_eq_idled (hquiet : Bus.pending (m.memory.elapse (Cpu.idleClocks * n)) = 0) :
    m.after n = m.idled n := by
  induction n with
  | zero => exact m.idled_zero.symm
  | succ n ih =>
    have hlast : (m.idled n).QuietFor 1 := quietFor_one_idled_iff.mpr (.inr (.inr hquiet))
    rw [elapse_idleClocks_succ] at hquiet
    have hbefore := Memory.pending_eq_zero_of_elapse hquiet
    rw [after_succ, ih hbefore, step_of_idle_of_quiet (h.idled hbefore).upcoming?_eq_none hlast]
    exact m.idled_idled_one n

theorem clocks_step_after {k : Nat} (hk : k < n)
    (hquiet : Bus.pending (m.memory.elapse (Cpu.idleClocks * n)) = 0) :
    (m.after k).step.1 = .ok Cpu.idleClocks := by
  have hquietFor (j : Nat) (hj : j ≤ n) :
      Bus.pending (m.memory.elapse (Cpu.idleClocks * j)) = 0 := by
    obtain ⟨rest, rfl⟩ := Nat.exists_eq_add_of_le hj
    rw [Nat.mul_add, Memory.elapse_add] at hquiet
    exact Memory.pending_eq_zero_of_elapse hquiet
  have hbefore := hquietFor k hk.le
  have hlast : (m.idled k).QuietFor 1 :=
    quietFor_one_idled_iff.mpr (.inr (.inr (hquietFor (k + 1) hk)))
  rw [h.after_eq_idled hbefore,
    step_of_idle_of_quiet (h.idled hbefore).upcoming?_eq_none hlast]

/-! ### The last step of a wait -/

section LastStep

variable (hbefore : Bus.pending (m.memory.elapse (Cpu.idleClocks * n)) = 0)
  (hafter : Bus.pending (m.memory.elapse (Cpu.idleClocks * (n + 1))) ≠ 0)

include hbefore hafter

/-- If interrupts are not enabled, the wait ends without a dispatch. -/
theorem step_idled_of_not_ime (hime : m.cpu.regs.ime = false) :
    (m.idled n).dispatched? = none ∧
      (m.idled n).step = (.ok Cpu.idleClocks,
        ⟨{ m.cpu.spend (Cpu.idleClocks * (n + 1)) with halted := false },
          m.memory.elapse (Cpu.idleClocks * (n + 1))⟩) := by
  have hidle := (h.idled hbefore).upcoming?_eq_none
  have hquiet : (m.idled n).QuietFor 1 := .inr (.inl hime)
  have hhalted : (m.idled (n + 1)).cpu.halted = false := by
    rw [Machine.idled, beq_false_of_ne hafter]
    simp
  refine ⟨(dispatched?_eq_none_iff_of_idle hidle).mpr hquiet, ?_⟩
  rw [step_of_idle_of_quiet hidle hquiet, idled_idled_one, ← hhalted]
  rfl

/-- If interrupts are enabled, the wait ends with the dispatch of the timer's interrupt. -/
theorem step_idled_of_ime (hime : m.cpu.regs.ime = true) :
    (m.idled n).dispatched? = some .timer ∧
      (m.idled n).step = (.ok (Cpu.idleClocks + Cpu.dispatchClocks),
        ⟨{ m.cpu with
            regs := { m.cpu.regs with
              sp := m.cpu.regs.sp - 2, pc := Interrupt.timer.vector, ime := false }
            halted := false
            clocks := m.cpu.clocks + Cpu.idleClocks * (n + 1) + Cpu.dispatchClocks },
          (Core.push ⟨{ m.cpu.regs with ime := false },
            { m.memory.elapse (Cpu.idleClocks * (n + 1)) with
              requests := Interrupt.timer.clear
                (m.memory.elapse (Cpu.idleClocks * (n + 1))).requests }⟩ m.cpu.regs.pc).bus⟩) := by
  have hidle := (h.idled hbefore).upcoming?_eq_none
  have hslot := step_of_ok (Cpu.step_of_upcoming?_eq_none hidle)
  have hfirst := Memory.first?_pending_elapse h.quiet hafter
  rw [elapse_idleClocks_succ] at hfirst ⊢
  have hdispatch : ((m.idled n).cpu.spend Cpu.idleClocks).dispatch?
      ((m.idled n).memory.elapse Cpu.idleClocks) = some .timer := by
    rw [Cpu.dispatch?]
    exact (if_pos hime).trans hfirst
  rw [hslot.1, hslot.2, Cpu.serviceInterrupts_eq_of_dispatch?_eq_some hdispatch]
  exact ⟨hdispatch, rfl⟩

end LastStep

end Waits

end Machine

/-- **A wait can be fast-forwarded.** Let the processor wait for an interrupt in the usual mode,
with none pending, and compare some steps with a jump of the timer and the requests over their
clocks. If nothing is pending after the jump, then each of the steps takes 4 clocks, and together
they lead to the machine after the jump, in which nothing else but the count of clocks has changed.
The first jump after which something is pending is not empty, and the last of its steps ends the
wait: if interrupts are enabled, the timer's interrupt is dispatched in that step, which takes 24
clocks; if they are not, nothing is dispatched, and it takes 4 clocks. -/
theorem halt_is_fast_forwarded {m : Machine} (hmode : m.memory.isFlat = false)
    (hhalted : m.cpu.halted = true) (hstopped : m.cpu.stopped = false)
    (hpending : m.memory.requests &&& m.memory.enables &&& 0x1F = 0) :
    let jump (n : Nat) := Timer.pass (4 * n) (m.memory.timer, m.memory.requests)
    let pending (n : Nat) := (jump n).2 &&& m.memory.enables &&& 0x1F
    let jumped (n : Nat) : Machine :=
      ⟨{ m.cpu with clocks := m.cpu.clocks + 4 * n },
        { m.memory with timer := (jump n).1, requests := (jump n).2 }⟩
    (∀ n, pending n = 0 → (∀ k < n, (m.after k).step.1 = .ok 4) ∧ m.after n = jumped n) ∧
    ∀ n, IsLeast {n | pending n ≠ 0} n →
      0 < n ∧ m.after (n - 1) = jumped (n - 1) ∧
      (m.cpu.regs.ime = true →
        (m.after (n - 1)).dispatched? = some .timer ∧
        (m.after (n - 1)).step = (.ok 24,
          ⟨{ m.cpu with
              regs := { m.cpu.regs with sp := m.cpu.regs.sp - 2, pc := 0x50, ime := false }
              halted := false
              clocks := m.cpu.clocks + 4 * n + 20 },
            (Core.push ⟨{ m.cpu.regs with ime := false },
              { (jumped n).memory with requests := Interrupt.timer.clear (jump n).2 }⟩
              m.cpu.regs.pc).bus⟩)) ∧
      (m.cpu.regs.ime = false →
        (m.after (n - 1)).dispatched? = none ∧
        (m.after (n - 1)).step = (.ok 4,
          ⟨{ (jumped n).cpu with halted := false }, (jumped n).memory⟩)) := by
  intro jump pending jumped
  have hwaits : m.Waits := ⟨hhalted, hstopped, hpending⟩
  have helapse (n : Nat) : m.memory.elapse (Cpu.idleClocks * n) = (jumped n).memory :=
    Memory.elapse_of_not_isFlat hmode _
  have hquiet {n : Nat} (hn : pending n = 0) :
      Bus.pending (m.memory.elapse (Cpu.idleClocks * n)) = 0 := by
    rw [helapse]
    exact hn
  have hafter {n : Nat} (hn : pending n = 0) : m.after n = jumped n := by
    rw [hwaits.after_eq_idled (hquiet hn), Machine.idled_of_pending_eq_zero (hquiet hn), helapse]
    rfl
  refine ⟨fun n hn => ⟨fun k hk => hwaits.clocks_step_after hk (hquiet hn), hafter hn⟩,
    fun n ⟨hlate, hleast⟩ => ?_⟩
  cases n with
  | zero => exact absurd hpending hlate
  | succ n =>
    -- the slot before the last one leaves nothing pending
    have hn : pending n = 0 := by
      by_contra hne
      exact Nat.not_succ_le_self n (hleast hne)
    have hlast : Bus.pending (m.memory.elapse (Cpu.idleClocks * (n + 1))) ≠ 0 := by
      rw [helapse]
      exact hlate
    refine ⟨n.succ_pos, hafter hn, fun hime => ?_, fun hime => ?_⟩
    · have hstep := hwaits.step_idled_of_ime (hquiet hn) hlast hime
      rw [helapse] at hstep
      rw [Nat.add_sub_cancel, hwaits.after_eq_idled (hquiet hn)]
      exact hstep
    · have hstep := hwaits.step_idled_of_not_ime (hquiet hn) hlast hime
      rw [helapse] at hstep
      rw [Nat.add_sub_cancel, hwaits.after_eq_idled (hquiet hn)]
      exact hstep

/-- A timer with a period of 16 clocks and a full counter overflows in the fourth idle slot of a
wait. Three slots change nothing but the time; the fourth one ends the wait at the handler of the
timer's interrupt. -/
theorem wait_ends_at_overflow :
    let m : Machine :=
      ⟨{ regs := { pc := 0x0150, sp := 0xE000, ime := true }, halted := true },
        { enables := 0x04, timer := { tima := 0xFF, tma := 0x80, tac := 0x05 } }⟩
    let jump (n : Nat) := Timer.pass (4 * n) (m.memory.timer, m.memory.requests)
    let pending (n : Nat) := (jump n).2 &&& m.memory.enables &&& 0x1F
    (m.memory.isFlat = false ∧ m.cpu.halted = true ∧ m.cpu.stopped = false ∧
      m.memory.requests &&& m.memory.enables &&& 0x1F = 0) ∧
    (pending 3 = 0 ∧ (∀ k < 3, (m.after k).step.1 = .ok 4) ∧
      m.after 3 = ⟨{ m.cpu with clocks := 12 },
        { m.memory with timer := { m.memory.timer with div := 12, latch := true } }⟩) ∧
    IsLeast {n | pending n ≠ 0} 4 ∧ m.cpu.regs.ime = true ∧
    (m.after 3).step.1 = .ok 24 ∧ (m.after 3).step.2.cpu.halted = false ∧
      (m.after 3).step.2.cpu.regs.pc = 0x50 := by
  intro m jump pending
  have hmode : m.memory.isFlat = false := rfl
  have hpending : m.memory.requests &&& m.memory.enables &&& 0x1F = 0 := by decide
  have hjump : Timer.pass 12 (m.memory.timer, m.memory.requests) =
      ({ m.memory.timer with div := 12, latch := true }, 0x01) := by decide
  have hthree : pending 3 = 0 := by decide
  have hleast : IsLeast {n | pending n ≠ 0} 4 := by
    refine ⟨by decide, fun n hn => ?_⟩
    by_contra hlt
    have hsmall : ∀ n < 4, pending n = 0 := by decide
    exact hn (hsmall n (by omega))
  obtain ⟨hquiet, hwake⟩ := halt_is_fast_forwarded hmode rfl rfl hpending
  obtain ⟨hclocks, hjumped⟩ := hquiet 3 hthree
  obtain ⟨-, -, hdispatch, -⟩ := hwake 4 hleast
  have hstep := (hdispatch rfl).2
  refine ⟨⟨hmode, rfl, rfl, hpending⟩, ⟨hthree, hclocks, hjumped.trans ?_⟩, hleast, rfl,
    congrArg Prod.fst hstep, congrArg (·.2.cpu.halted) hstep, congrArg (·.2.cpu.regs.pc) hstep⟩
  simp only [Nat.reduceMul, hjump]
  rfl

end Sm83
