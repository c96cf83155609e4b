import Mathlib.Algebra.BigOperators.Group.Finset.Basic
import Sm83.Proofs.Machine.Accesses
import Sm83.Proofs.Timer.Elapse

/-!
# The divider and the clocks of a run

In the usual mode the timer catches up with the processor's part of every step, but not with the
dispatch of an interrupt that may follow. So the divider, which counts all clocks of the timer,
falls behind the clocks of a run by those of its dispatches.

## Main results

* `Machine.div_step`, `Machine.div_after` — the divider after a step and after a run.
* `divider_lags_by_dispatches` — when the divider has counted all clocks of a run.
-/

namespace Sm83

namespace Machine

/-! ### The mode -/

theorem isFlat_step (m : Machine) : m.step.2.memory.isFlat = m.memory.isFlat :=
  Memory.isFlat_frame.memory_step (fun _ _ => rfl) Memory.isFlat_elapse m

theorem isFlat_after (m : Machine) (n : Nat) : (m.after n).memory.isFlat = m.memory.isFlat := by
  induction n with
  | zero => rfl
  | succ n ih => rw [after_succ, isFlat_step, ih]

/-! ### The divider -/

variable {m : Machine}

/-- A step that does not write to `DIV` moves the divider by its clocks without those of a
dispatch. -/
theorem div_step (hmode : m.memory.isFlat = false) {clocks : Nat} (hok : m.step.1 = .ok clocks)
    (hwrite : Access.write 0xFF04 ∉ m.accesses) :
    m.step.2.memory.timer.div +
        UInt16.ofNat (if m.dispatched?.isSome then Cpu.dispatchClocks else 0) =
      m.memory.timer.div + UInt16.ofNat clocks := by
  obtain ⟨n, hn⟩ := step_eq_ok_iff.mp ⟨clocks, hok⟩
  rcases hstep : m.cpu.step m.memory with ⟨result, cpu, memory⟩
  obtain rfl : result = .ok n := by rw [← hn, hstep]
  have hclocks := Except.ok.inj (hok.symm.trans (clocks_step_of_dispatched? hn))
  have hmemory : memory.isFlat = false := by
    rw [(Memory.isFlat_frame.machine_step (fun _ _ => rfl) hstep (by simp)).1, hmode]
  obtain ⟨hcpu, hafter⟩ :=
    Memory.div_frame.machine_step (fun _ _ => rfl) hstep (by simpa using hwrite)
  rw [hafter, Memory.div_elapse hmemory, hcpu, hclocks, UInt16.ofNat_add, UInt16.add_assoc]

/-- A run that does not write to `DIV` moves the divider by its clocks without those of its
dispatches. -/
theorem div_after (hmode : m.memory.isFlat = false) {clocks : Nat → Nat} {n : Nat}
    (hok : ∀ k < n, (m.after k).step.1 = .ok (clocks k))
    (hwrite : ∀ k < n, Access.write 0xFF04 ∉ (m.after k).accesses) :
    (m.after n).memory.timer.div + UInt16.ofNat (Cpu.dispatchClocks * m.dispatches n) =
      m.memory.timer.div + UInt16.ofNat (∑ k ∈ Finset.range n, clocks k) := by
  induction n with
  | zero => rfl
  | succ n ih =>
    have hrun := ih (fun k hk => hok k (Nat.lt_succ_of_lt hk))
      fun k hk => hwrite k (Nat.lt_succ_of_lt hk)
    have hlast := div_step ((isFlat_after m n).trans hmode) (hok n (Nat.lt_succ_self n))
      (hwrite n (Nat.lt_succ_self n))
    have hcount : Cpu.dispatchClocks * m.dispatches (n + 1) =
        (if (m.after n).dispatched?.isSome then Cpu.dispatchClocks else 0) +
          Cpu.dispatchClocks * m.dispatches n := by
      rw [dispatches_succ, Nat.mul_add, Nat.add_comm]
      split_ifs <;> rfl
    rw [after_succ, hcount, Finset.sum_range_succ, UInt16.ofNat_add, UInt16.ofNat_add]
    calc
      _ = (m.after n).memory.timer.div + UInt16.ofNat (clocks n) +
          UInt16.ofNat (Cpu.dispatchClocks * m.dispatches n) := by rw [← UInt16.add_assoc, hlast]
      _ = (m.after n).memory.timer.div + UInt16.ofNat (Cpu.dispatchClocks * m.dispatches n) +
          UInt16.ofNat (clocks n) := by ac_rfl
      _ = _ := by rw [hrun, UInt16.add_assoc]

end Machine

/-- The clocks of some dispatches vanish modulo `2 ^ 16` only if there are many of them. -/
theorem ofNat_dispatchClocks_mul_eq_zero_iff (d : Nat) :
    UInt16.ofNat (Cpu.dispatchClocks * d) = 0 ↔ 16384 ∣ d := by
  rw [← UInt16.toNat_inj, UInt16.toNat_ofNat', Cpu.dispatchClocks]
  change 20 * d % 65536 = 0 ↔ _
  omega

/-- **The divider lags by the dispatches.** Let a run in the usual mode succeed at every step, and
let no step write to `DIV`, be it by an operation or by the push of a dispatch. Modulo `2 ^ 16`, the
divider afterwards is the divider before and the clocks of all steps, less those of the dispatches.
So it has counted all clocks of the run exactly if no interrupt was dispatched, or so many that
their clocks vanish modulo `2 ^ 16`. -/
theorem divider_lags_by_dispatches {m : Machine} (hmode : m.memory.isFlat = false)
    {clocks : Nat → Nat} {n : Nat} (hok : ∀ k < n, (m.after k).step.1 = .ok (clocks k))
    (hwrite : ∀ k < n, Access.write 0xFF04 ∉ (m.after k).accesses) :
    (m.after n).memory.timer.div + UInt16.ofNat (Cpu.dispatchClocks * m.dispatches n) =
        m.memory.timer.div + UInt16.ofNat (∑ k ∈ Finset.range n, clocks k) ∧
      ((m.after n).memory.timer.div =
          m.memory.timer.div + UInt16.ofNat (∑ k ∈ Finset.range n, clocks k) ↔
        16384 ∣ m.dispatches n) := by
  have hdiv := Machine.div_after hmode hok hwrite
  refine ⟨hdiv, ?_⟩
  rw [← hdiv, ← ofNat_dispatchClocks_mul_eq_zero_iff]
  exact UInt16.left_eq_add

/-- Of the clocks of an `EI` and of a `NOP` that ends with a dispatch, the divider counts those of
the two operations. -/
theorem divider_lags_after_ei_nop :
    let memory : Memory :=
      { cartridge := ⟨#[0xFB, 0x00], by decide⟩, requests := 0x01, enables := 0x01 }
    let m : Machine := ⟨{ regs := { sp := 0xE000 } }, memory⟩
    let clocks : Nat → Nat := fun k => [4, 24].getD k 0
    m.memory.isFlat = false ∧ (∀ k < 2, (m.after k).step.1 = .ok (clocks k)) ∧
      (∀ k < 2, Access.write 0xFF04 ∉ (m.after k).accesses) ∧ m.dispatches 2 = 1 ∧
      (m.after 2).memory.timer.div + UInt16.ofNat (Cpu.dispatchClocks * m.dispatches 2) =
        m.memory.timer.div + UInt16.ofNat (∑ k ∈ Finset.range 2, clocks k) := by
  intro memory m clocks
  have hok : ∀ k < 2, (m.after k).step.1 = .ok (clocks k) := by decide +kernel
  have hwrite : ∀ k < 2, Access.write 0xFF04 ∉ (m.after k).accesses := by decide +kernel
  exact ⟨rfl, hok, hwrite, by decide +kernel, (divider_lags_by_dispatches rfl hok hwrite).1⟩

/-- From power-on, a program that enables the interrupt of the vertical blank and then all
interrupts is interrupted at the end of its fourth step. The four steps take 48 clocks, and the
divider has counted 28. -/
theorem divider_misses_dispatch :
    let program : Array UInt8 := #[0x3E, 0x01, 0xE0, 0xFF, 0xFB, 0x00]
    let cartridge : Cartridge := ⟨Array.replicate 0x100 0x00 ++ program, by decide +kernel⟩
    let m : Machine := { Machine.powerOn with memory := Machine.powerOn.memory.insert cartridge }
    let clocks : Nat → Nat := fun k => [8, 12, 4, 24].getD k 0
    m.memory.isFlat = false ∧ (∀ k < 4, (m.after k).step.1 = .ok (clocks k)) ∧
      (∀ k < 4, Access.write 0xFF04 ∉ (m.after k).accesses) ∧
      m.memory.timer.div = 0 ∧ ∑ k ∈ Finset.range 4, clocks k = 48 ∧
      (m.after 4).memory.timer.div = 28 := by
  intro program cartridge m clocks
  exact ⟨rfl, by decide +kernel, by decide +kernel, rfl, rfl, by decide +kernel⟩

end Sm83
