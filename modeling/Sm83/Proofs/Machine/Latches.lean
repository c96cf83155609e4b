import Sm83.Proofs.Cpu.Failure
import Sm83.Proofs.Machine.Host
import Sm83.Proofs.Machine.Step

/-!
# Machines that the host does not write to

A machine that the host loads, steps and resets, but does not write to, waits only while no
interrupt is pending: each step ends with the service of interrupts, which would have ended the
wait. For the same reason a failure repeats itself. It could change only the latch of `HALT`, and
the processor does not wait when it fails, since an interrupt would have to be pending for that.

## Main definitions

* `Cpu.LatchesFit`, `Machine.LatchesFit` — how the latches of `EI`, `HALT` and `STOP` agree with one
  another and with the pending interrupts.

## Main results

* `Machine.clocks_step` — the clocks of a step.
* `Cpu.LatchesFit.step`, `Machine.LatchesFit.step`, `Machine.LatchesFit.perform` — what one step and
  one action keep.
* `Machine.LatchesFit.step_after_of_error` — failures repeat themselves.
* `latches_fit_without_host_writes` — all of this for the machines that the host does not write to.
-/

namespace Sm83

/-! ### Clocks -/

/-- An operation takes one to six machine cycles. -/
theorem Operation.Encodable.clocks_mem {op : Operation} (h : op.Encodable) (flags : Flags) :
    op.clocks flags ∈ [4, 8, 12, 16, 20, 24] := by
  cases op with
  | invalid b => cases h
  | load dst src =>
    simp only [clocks, byteClocks]
    split_ifs <;> decide
  | loadImm r _ | alu _ r | inc r | dec r | shift _ r | bit _ r | res _ r | set _ r =>
    simp only [clocks, byteClocks]
    split_ifs <;> decide
  | jp cond _ | jr cond _ | call cond _ =>
    simp only [clocks]
    split_ifs <;> decide
  | ret cond =>
    cases cond with
    | none => simp only [clocks]; decide
    | some cc =>
      simp only [clocks]
      split_ifs <;> decide
  | _ => simp only [clocks]; decide

theorem Operation.Encodable.clocks_pos {op : Operation} (h : op.Encodable) (flags : Flags) :
    0 < op.clocks flags ∧ 4 ∣ op.clocks flags := by
  have hall : ∀ n ∈ [4, 8, 12, 16, 20, 24], 0 < n ∧ 4 ∣ n := by decide
  exact hall _ (h.clocks_mem flags)

namespace Cpu

variable {β : Type u} [Bus β] {c : Cpu} {bus : β}

/-- A step of the processor that succeeds takes one machine cycle or several, and counts its
clocks. -/
theorem clocks_step {n : Nat} (h : (c.step bus).1 = .ok n) :
    (0 < n ∧ 4 ∣ n) ∧ (c.step bus).2.1.clocks = c.clocks + n := by
  rcases c.step_cases bus with ⟨-, hstep⟩ | ⟨op, -, hencodable, hstep⟩ | ⟨b, -, -, -, hstep⟩
  · rw [hstep] at h ⊢
    obtain rfl : idleClocks = n := Except.ok.inj h
    exact ⟨by decide, rfl⟩
  · rw [hstep] at h ⊢
    obtain rfl : op.clocks c.regs.flags = n := Except.ok.inj h
    exact ⟨hencodable.clocks_pos c.regs.flags, rfl⟩
  · rw [hstep] at h
    cases h

end Cpu

namespace Machine

variable {m : Machine}

/-- A step that succeeds takes one machine cycle or several, those of a dispatch included, and
counts its clocks. -/
theorem clocks_step {n : Nat} (h : m.step.1 = .ok n) :
    (0 < n ∧ 4 ∣ n) ∧ m.step.2.cpu.clocks = m.cpu.clocks + n := by
  rcases hstep : m.cpu.step m.memory with ⟨e | k, cpu, memory⟩
  · rw [(step_of_error hstep).2] at h
    cases h
  · rw [(step_of_ok hstep).2] at h ⊢
    obtain ⟨⟨hpos, hdvd⟩, hcpu⟩ := Cpu.clocks_step (congrArg Prod.fst hstep)
    have hsum : k + (cpu.serviceInterrupts (memory.elapse k)).1 = n := Except.ok.inj h
    rw [hstep] at hcpu
    have hdispatch : 4 ∣ (cpu.serviceInterrupts (memory.elapse k)).1 := by
      rw [Cpu.fst_serviceInterrupts]
      split_ifs <;> decide
    refine ⟨⟨?_, ?_⟩, ?_⟩
    · omega
    · exact hsum ▸ Nat.dvd_add hdvd hdispatch
    · rw [Cpu.clocks_serviceInterrupts, hcpu, Nat.add_assoc, hsum]

end Machine

/-! ### The latches of the processor -/

/-- The two kinds of standstill exclude one another, and at a standstill the latch of `EI` is
clear. -/
structure Cpu.LatchesFit (c : Cpu) : Prop where
  eiPending_eq_false : c.halted = true ∨ c.stopped = true → c.eiPending = false
  not_halted_and_stopped : ¬ (c.halted = true ∧ c.stopped = true)

namespace Cpu

variable {β : Type u} [Bus β] {c : Cpu}

theorem LatchesFit.of_awake (hhalted : c.halted = false) (hstopped : c.stopped = false) :
    c.LatchesFit := by
  constructor
  · rw [hhalted, hstopped]
    rintro (h | h) <;> cases h
  · rw [hhalted]
    rintro ⟨h, -⟩
    cases h

/-- An operation asks for at most one of the latches. -/
theorem latchesFit_settle (c : Cpu) (o : Outcome) (regs : RegisterFile) :
    (c.settle o regs).LatchesFit := by
  constructor
  · cases hcontrol : o.control <;> simp [settle, hcontrol]
  · cases hcontrol : o.control <;> simp [settle, hcontrol]

/-- The latches fit also when the wait of `HALT` is over. -/
theorem LatchesFit.of_halted_imp {c' : Cpu} (h : c.LatchesFit)
    (hhalted : c'.halted = true → c.halted = true) (hstopped : c'.stopped = c.stopped)
    (hlatch : c'.eiPending = c.eiPending) : c'.LatchesFit := by
  constructor
  · rw [hstopped, hlatch]
    exact fun hstill => h.eiPending_eq_false (hstill.imp_left hhalted)
  · rw [hstopped]
    exact fun hboth => h.not_halted_and_stopped (hboth.imp_left hhalted)

theorem LatchesFit.step (h : c.LatchesFit) (bus : β) : (c.step bus).2.1.LatchesFit := by
  rcases c.step_cases bus with ⟨-, hstep⟩ | ⟨op, -, -, hstep⟩ | ⟨b, -, -, -, hstep⟩
  · rw [hstep]
    exact h.of_halted_imp id rfl rfl
  · rw [hstep]
    exact latchesFit_settle _ _ _
  · rw [hstep]
    exact h.of_halted_imp nofun rfl rfl

theorem LatchesFit.serviceInterrupts (h : c.LatchesFit) (bus : β) :
    (c.serviceInterrupts bus).2.1.LatchesFit := by
  refine h.of_halted_imp (fun hhalted => ?_) (c.stopped_serviceInterrupts bus)
    (c.eiPending_serviceInterrupts bus)
  rw [halted_serviceInterrupts, Bool.and_eq_true] at hhalted
  exact hhalted.1

/-- A processor that waits after the service of interrupts does so because none is pending. -/
theorem pending_eq_zero_of_halted_serviceInterrupts {memory : Memory}
    (h : (c.serviceInterrupts memory).2.1.halted = true) :
    Bus.pending (c.serviceInterrupts memory).2.2 = 0 := by
  rw [halted_serviceInterrupts, Bool.and_eq_true] at h
  have hnone := Option.isNone_iff_eq_none.mp h.2
  rw [serviceInterrupts_of_first?_eq_none _ _ hnone]
  rw [Memory.isNone_first?_pending, beq_iff_eq] at h
  exact h.2

end Cpu

/-! ### The latches and the pending interrupts -/

/-- The latches fit, and the processor waits only while no interrupt is pending. -/
structure Machine.LatchesFit (m : Machine) : Prop extends Cpu.LatchesFit m.cpu where
  pending_eq_zero : m.cpu.halted = true → m.memory.requests &&& m.memory.enables &&& 0x1F = 0

namespace Machine

variable {m : Machine}

theorem LatchesFit.of_awake (hhalted : m.cpu.halted = false) (hstopped : m.cpu.stopped = false) :
    m.LatchesFit :=
  ⟨.of_awake hhalted hstopped, fun h => absurd (hhalted.symm.trans h) Bool.false_ne_true⟩

theorem IsNew.latchesFit (h : m.IsNew) : m.LatchesFit := by
  rcases h with rfl | rfl
  · exact .of_awake rfl rfl
  · exact .of_awake rfl rfl

/-- If the latches fit, a failing step leaves the whole machine as it was. -/
theorem LatchesFit.step_of_error (h : m.LatchesFit) {e : CpuError} (herror : m.step.1 = .error e) :
    m.step = (.error e, m) := by
  rcases hstep : m.cpu.step m.memory with ⟨e' | n, cpu, memory⟩
  · have hmachine := (Machine.step_of_error hstep).2
    have hfails : (m.cpu.step m.memory).1 = .error e' := congrArg Prod.fst hstep
    -- a processor that waits fails only if an interrupt is pending
    have hawake : m.cpu.halted = false := by
      rw [Bool.eq_false_iff]
      exact fun hhalted =>
        (Cpu.step_fails_iff.mp hfails).1 (.inr ⟨hhalted, h.pending_eq_zero hhalted⟩)
    have hafter := Cpu.step_of_error hfails
    rw [Cpu.with_halted_false_eq_iff.mpr hawake, hstep] at hafter
    obtain ⟨rfl, rfl⟩ : cpu = m.cpu ∧ memory = m.memory := Prod.mk.inj hafter
    rw [hmachine] at herror ⊢
    obtain rfl : e' = e := Except.error.inj herror
    rfl
  · rw [(step_of_ok hstep).2] at herror
    cases herror

/-- If the latches fit, a step that fails does so again and again. -/
theorem LatchesFit.step_after_of_error (h : m.LatchesFit) {e : CpuError}
    (herror : m.step.1 = .error e) (n : Nat) : (m.after n).step = (.error e, m) := by
  have hstep := h.step_of_error herror
  have hafter : m.after n = m := Function.iterate_fixed (congrArg Prod.snd hstep) n
  rw [hafter, hstep]

/-- Each step keeps the latches fitting. -/
theorem LatchesFit.step (h : m.LatchesFit) : m.step.2.LatchesFit := by
  rcases hstep : m.cpu.step m.memory with ⟨e | n, cpu, memory⟩
  · have herror : m.step.1 = .error e := congrArg Prod.fst (Machine.step_of_error hstep).2
    rw [h.step_of_error herror]
    exact h
  · have hcpu : cpu.LatchesFit := by
      have hfit := h.toLatchesFit.step m.memory
      rwa [hstep] at hfit
    rw [(step_of_ok hstep).2]
    exact ⟨hcpu.serviceInterrupts _, Cpu.pending_eq_zero_of_halted_serviceInterrupts⟩

/-- Each action but a write of the host keeps the latches fitting. -/
theorem LatchesFit.perform (h : m.LatchesFit) {a : Action} (ha : a.isWrite = false) :
    (m.perform a).LatchesFit := by
  cases a with
  | loadRom bytes =>
    rcases m.perform_loadRom bytes with hm | ⟨cartridge, hm⟩
    · rw [hm]
      exact h
    · rw [hm]
      exact ⟨h.toLatchesFit, h.pending_eq_zero⟩
  | loadBootRom bytes =>
    rcases m.perform_loadBootRom bytes with hm | ⟨image, hm⟩
    · rw [hm]
      exact h
    · rw [hm]
      exact .of_awake rfl rfl
  | step => exact h.step
  | reset =>
    rcases m.perform_reset with hm | hm
    · rw [hm]
      exact .of_awake rfl rfl
    · rw [hm]
      exact .of_awake rfl rfl
  | write8 addr v => cases ha
  | write16 addr w => cases ha

end Machine

/-- **Machines that the host does not write to.** Whatever the host does with a new machine other
than writing to it, the processor waits only while no interrupt is pending, the latch of `EI` is
clear at a standstill, and the two kinds of standstill exclude one another. A step that succeeds
takes one machine cycle or several and counts its clocks; a step that fails leaves the machine as it
was, and so does every later one, with the same error. -/
theorem latches_fit_without_host_writes {start : Machine} (hnew : start.IsNew)
    {actions : List Machine.Action} (hactions : ∀ a ∈ actions, a.isWrite = false) :
    let m := start.performAll actions
    (m.cpu.halted = true → m.memory.requests &&& m.memory.enables &&& 0x1F = 0) ∧
    (m.cpu.halted = true ∨ m.cpu.stopped = true → m.cpu.eiPending = false) ∧
    ¬ (m.cpu.halted = true ∧ m.cpu.stopped = true) ∧
    (∀ n, m.step.1 = .ok n →
      (0 < n ∧ 4 ∣ n) ∧ m.step.2.cpu.clocks = m.cpu.clocks + n) ∧
    (∀ e, m.step.1 = .error e → ∀ k, (m.after k).step = (.error e, m)) := by
  intro m
  have h : m.LatchesFit :=
    Machine.performAll_induction hnew.latchesFit fun m hm a ha => hm.perform (hactions a ha)
  exact ⟨h.pending_eq_zero, h.eiPending_eq_false, h.not_halted_and_stopped,
    fun n => Machine.clocks_step, fun e => h.step_after_of_error⟩

/-- With an interrupt pending that is not enabled to be dispatched, `HALT` does not wait; the opcode
`0xD3` that follows it fails in every later step alike. -/
theorem failure_after_halt_repeats :
    let program : Array UInt8 := #[0x3E, 0x01, 0xE0, 0xFF, 0x76, 0xD3]
    let m := Machine.powerOn.performAll [.loadRom #[], .loadBootRom program, .step, .step, .step]
    m.cpu.halted = false ∧ m.memory.requests &&& m.memory.enables &&& 0x1F = 1 ∧
      ∀ k, (m.after k).step = (.error (.invalidOpcode 0xD3 5), m) := by
  intro program m
  have h := @latches_fit_without_host_writes Machine.powerOn (.inl rfl)
    [.loadRom #[], .loadBootRom program, .step, .step, .step] (by decide)
  have hfails : (m.cpu.step m.memory).1 = .error (.invalidOpcode 0xD3 5) :=
    Cpu.step_fails_iff.mpr ⟨by decide +kernel, by decide +kernel, by decide +kernel⟩
  refine ⟨by decide +kernel, by decide +kernel, h.2.2.2.2 _ ?_⟩
  exact congrArg Prod.fst (Machine.step_of_error (Prod.ext hfails rfl)).2

end Sm83
