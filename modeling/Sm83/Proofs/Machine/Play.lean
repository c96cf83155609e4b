import Sm83.CommandLine.Program
import Sm83.Proofs.Cpu.Failure
import Sm83.Proofs.Machine.Step
import Sm83.Proofs.Timer.Elapse

/-!
# Playing prints what is sent

A program that is played has its output taken from the serial link after every step, and playing
ends early when nothing can wake the processor. Neither can be told from the bytes alone. What the
serial link keeps of earlier bytes has no influence on a step, so it makes no difference when they
are taken; and a processor that waits while no interrupt is enabled executes nothing any more, so
that no byte follows.

## Main definitions

* `Memory.withEarlier`, `Machine.withEarlier` — the bytes of a serial link with others before them.
* `Machine.WaitsInVain` — the processor waits, and no interrupt is enabled.

## Main results

* `Machine.step_withEarlier` — what was sent has no influence on a step.
* `Machine.run_of_waitsInVain` — nothing follows when the processor waits in vain.
* `Machine.playFrom_eq` — playing against a plain run.
* `printed_bytes_are_sent_bytes` — what is printed is what a plain run sends.
-/

namespace Sm83

/-! ### Bytes that were sent earlier -/

namespace Memory

/-- The memory, with bytes sent before those that its serial link keeps. -/
def withEarlier (sent : Array UInt8) (m : Memory) : Memory :=
  { m with serial := { m.serial with sent := sent ++ m.serial.sent } }

variable (sent : Array UInt8) (m : Memory)

theorem readIo_withEarlier (o : Fin 0x80) : (m.withEarlier sent).readIo o = m.readIo o := by
  unfold readIo
  cases ioRegister o with
  | serial r => cases r <;> rfl
  | timer | requests | dma | lockout | cell => rfl

theorem readLocation_withEarlier (l : Location) :
    (m.withEarlier sent).readLocation l = m.readLocation l := by
  obtain ⟨r, o⟩ := l
  cases r with
  | io => exact m.readIo_withEarlier sent o
  | _ => rfl

theorem read8_withEarlier (a : UInt16) : (m.withEarlier sent).read8 a = m.read8 a := by
  cases hmode : m.isFlat with
  | true =>
    obtain ⟨ram, hram⟩ := Option.isSome_iff_exists.mp hmode
    simp only [read8, withEarlier, hram]
  | false =>
    rw [read8_of_not_isFlat hmode, read8_of_not_isFlat (m := m.withEarlier sent) hmode]
    exact m.readLocation_withEarlier sent _

theorem copyToOam_withEarlier (page : UInt8) :
    (m.withEarlier sent).copyToOam page = (m.copyToOam page).withEarlier sent := by
  rw [copyToOam, copyToOam, Fin.foldl_eq_finRange_foldl, Fin.foldl_eq_finRange_foldl]
  refine List.foldl_hom (withEarlier sent) fun m i => ?_
  rw [read8_withEarlier]
  rfl

theorem writeIo_withEarlier (o : Fin 0x80) (v : UInt8) :
    (m.withEarlier sent).writeIo o v = (m.writeIo o v).withEarlier sent := by
  unfold writeIo
  cases ioRegister o with
  | serial r =>
    cases r with
    | sb => rfl
    | sc =>
      simp only [withEarlier, Serial.write]
      split_ifs
      · rw [Array.append_push]
      · rfl
  | dma => exact copyToOam_withEarlier sent { m with io := m.io.set o v } v
  | timer | requests | lockout | cell => rfl

theorem writeLocation_withEarlier (l : Location) (v : UInt8) :
    (m.withEarlier sent).writeLocation l v = (m.writeLocation l v).withEarlier sent := by
  obtain ⟨r, o⟩ := l
  cases r with
  | io => exact m.writeIo_withEarlier sent o v
  | _ => rfl

/-- Only at its end do writes change what was sent. -/
theorem write8_withEarlier (a : UInt16) (v : UInt8) :
    (m.withEarlier sent).write8 a v = (m.write8 a v).withEarlier sent := by
  cases hmode : m.isFlat with
  | true =>
    obtain ⟨ram, hram⟩ := Option.isSome_iff_exists.mp hmode
    simp only [write8, withEarlier, hram]
  | false =>
    rw [write8_of_not_isFlat hmode, write8_of_not_isFlat (m := m.withEarlier sent) hmode]
    exact m.writeLocation_withEarlier sent _ v

theorem elapse_withEarlier (n : Nat) :
    (m.withEarlier sent).elapse n = (m.elapse n).withEarlier sent := by
  cases hmode : m.isFlat with
  | true => rw [elapse_of_isFlat hmode, elapse_of_isFlat (m := m.withEarlier sent) hmode]
  | false =>
    rw [elapse_of_not_isFlat hmode, elapse_of_not_isFlat (m := m.withEarlier sent) hmode]
    rfl

/-- The processor cannot tell what was sent earlier. -/
theorem withEarlier_simulation :
    Bus.Simulation Set.univ fun m m' : Memory => m' = m.withEarlier sent where
  read_eq := by
    rintro m _ a rfl -
    exact (m.read8_withEarlier sent a).symm
  read h _ := h
  write {m m' a} v := by
    rintro rfl -
    exact m.write8_withEarlier sent a v
  pending_eq := by
    rintro m _ rfl
    rfl

end Memory

namespace Machine

/-- The machine, with bytes sent before those that its serial link keeps. -/
def withEarlier (sent : Array UInt8) (m : Machine) : Machine :=
  { m with memory := m.memory.withEarlier sent }

theorem withEarlier_empty (m : Machine) : m.withEarlier #[] = m := by
  simp [withEarlier, Memory.withEarlier]

/-- What was sent earlier has no influence on a step. -/
theorem step_withEarlier (sent : Array UInt8) (m : Machine) :
    (m.withEarlier sent).step = (m.step.1, m.step.2.withEarlier sent) := by
  have hsim := Memory.withEarlier_simulation sent
  obtain ⟨hresult, hcpu, hmemory, -⟩ :=
    hsim.step (b := m.memory) (p := m.cpu) rfl fun _ _ => trivial
  rcases hstep : m.cpu.step m.memory with ⟨result, cpu, memory⟩
  rw [hstep] at hresult hcpu hmemory
  have hstep' : (m.withEarlier sent).cpu.step (m.withEarlier sent).memory =
      (result, cpu, memory.withEarlier sent) :=
    Prod.ext hresult.symm (Prod.ext hcpu.symm hmemory)
  cases result with
  | error e =>
    rw [(step_of_error hstep').2, (step_of_error hstep).2]
    rfl
  | ok n =>
    obtain ⟨hclocks, hregs, hserved⟩ := hsim.serviceInterrupts
      (fun i {_ _} h => by rw [h]; rfl) (memory.elapse_withEarlier sent n) (p := cpu)
      fun _ _ => trivial
    rw [(step_of_ok hstep').2, (step_of_ok hstep).2, ← hclocks, ← hregs, hserved]
    rfl

/-- The bytes that are taken come before those that follow. -/
theorem withEarlier_takeSent (sent : Array UInt8) (m : Machine) :
    m.takeSent.2.withEarlier (sent ++ m.takeSent.1) = m.withEarlier sent := by
  simp [takeSent, Serial.take, withEarlier, Memory.withEarlier]

/-! ### Runs, from their first step on -/

theorem runFrom_congr {sofar sofar' : Run} (h : sofar.error = sofar'.error) (n : Nat)
    (m : Machine) :
    (runFrom sofar n m).1.error = (runFrom sofar' n m).1.error ∧
      (runFrom sofar n m).2 = (runFrom sofar' n m).2 := by
  induction n generalizing sofar sofar' m with
  | zero => exact ⟨h, rfl⟩
  | succ n ih =>
    rcases hstep : m.step with ⟨e | clocks, m'⟩
    · simp only [runFrom, hstep, and_self]
    · simp only [runFrom, hstep]
      refine ih ?_ m'
      exact h

variable {m m' : Machine}

theorem run_succ_of_error {e : CpuError} (h : m.step = (.error e, m')) (n : Nat) :
    (m.run (n + 1)).1.error = some e ∧ (m.run (n + 1)).2 = m' := by
  simp only [run, runFrom, h, and_self]

theorem run_succ_of_ok {clocks : Nat} (h : m.step = (.ok clocks, m')) (n : Nat) :
    (m.run (n + 1)).1.error = (m'.run n).1.error ∧ (m.run (n + 1)).2 = (m'.run n).2 := by
  simp only [run, runFrom, h]
  refine runFrom_congr ?_ n m'
  rfl

/-! ### Waiting in vain -/

/-- The processor waits, and no interrupt is enabled that could wake it. -/
def WaitsInVain (m : Machine) : Prop :=
  m.cpu.halted = true ∧ m.memory.enables &&& Interrupt.allMask = 0

theorem WaitsInVain.pending_eq_zero (h : m.WaitsInVain) (requests : UInt8) :
    requests &&& m.memory.enables &&& Interrupt.allMask = 0 := by
  rw [UInt8.and_assoc, h.2, UInt8.and_zero]

/-- A step of a processor that waits in vain is an idle slot, also for the devices. -/
theorem WaitsInVain.step (h : m.WaitsInVain) : m.step =
    (.ok Cpu.idleClocks, ⟨m.cpu.spend Cpu.idleClocks, m.memory.elapse Cpu.idleClocks⟩) := by
  have hnone : m.cpu.upcoming? m.memory = none :=
    Cpu.upcoming?_eq_none_iff.mpr (.inr ⟨h.1, h.pending_eq_zero _⟩)
  have hpending : Bus.pending (m.memory.elapse Cpu.idleClocks) = 0 := by
    rw [Memory.elapse_eq]
    exact h.pending_eq_zero _
  have hfirst : Interrupt.first? (Bus.pending (m.memory.elapse Cpu.idleClocks)) = none := by
    rw [hpending]
    rfl
  rw [(step_of_ok (Cpu.step_of_upcoming?_eq_none hnone)).2,
    Cpu.serviceInterrupts_of_first?_eq_none _ _ hfirst]
  rfl

/-- Nothing is sent, and no error occurs, once the processor waits in vain. -/
theorem run_of_waitsInVain (h : m.WaitsInVain) (n : Nat) :
    (m.run n).1.error = none ∧ (m.run n).2.memory.serial = m.memory.serial := by
  induction n generalizing m with
  | zero => exact ⟨rfl, rfl⟩
  | succ n ih =>
    have helapse := m.memory.elapse_eq Cpu.idleClocks
    obtain ⟨herror, hmachine⟩ := run_succ_of_ok h.step n
    have hwaits : WaitsInVain ⟨m.cpu.spend Cpu.idleClocks, m.memory.elapse Cpu.idleClocks⟩ := by
      refine ⟨h.1, ?_⟩
      rw [helapse]
      exact h.2
    obtain ⟨herror', hserial⟩ := ih hwaits
    rw [herror, hmachine, herror', hserial, helapse]
    exact ⟨rfl, rfl⟩

/-! ### Playing -/

/-- A step that fails sends nothing. -/
theorem serial_step_of_error {e : CpuError} (h : m.step = (.error e, m')) :
    m'.memory.serial = m.memory.serial := by
  rcases hstep : m.cpu.step m.memory with ⟨e' | n, cpu, memory⟩
  · have hafter := Cpu.step_of_error (congrArg Prod.fst hstep)
    rw [hstep, Memory.read_eq] at hafter
    rw [(step_of_error hstep).2] at h
    obtain rfl : ⟨cpu, memory⟩ = m' := congrArg Prod.snd h
    obtain rfl : memory = m.memory := congrArg Prod.snd hafter
    rfl
  · rw [(step_of_ok hstep).2] at h
    cases h

/-- When nothing can wake the processor, a plain run sends nothing more and meets no error, unless
the processor is stopped and the run goes on. -/
theorem run_of_isIdle (hidle : m.isIdle = true) {n : Nat}
    (hstopped : 0 < n → m.cpu.stopped = false) :
    (m.run n).1.error = none ∧ (m.run n).2.memory.serial = m.memory.serial := by
  cases n with
  | zero => exact ⟨rfl, rfl⟩
  | succ n =>
    refine run_of_waitsInVain ?_ (n + 1)
    simpa [WaitsInVain, isIdle, hstopped (Nat.succ_pos n)] using hidle

/-- Playing comes to the bytes and to the error of a plain run, in which the bytes that were taken
are still there, if the processor is not stopped before the end of that run. -/
theorem playFrom_eq (output : Array UInt8) (hsent : m.memory.serial.sent = #[]) (budget : Nat)
    (hstopped : ∀ k, 0 < k → k < budget → ((m.withEarlier output).run k).2.cpu.stopped = false) :
    (playFrom output budget m).output =
        ((m.withEarlier output).run budget).2.memory.serial.sent ∧
      (playFrom output budget m).error = ((m.withEarlier output).run budget).1.error := by
  induction budget generalizing m output with
  | zero =>
    have hall : output = output ++ m.memory.serial.sent := by rw [hsent, Array.append_empty]
    exact ⟨hall, rfl⟩
  | succ budget ih =>
    have hplain := m.step_withEarlier output
    rcases hstep : m.step with ⟨e | clocks, m'⟩
    · rw [hstep] at hplain
      obtain ⟨herror, hmachine⟩ := run_succ_of_error hplain budget
      have hall : output = output ++ m'.memory.serial.sent := by
        rw [serial_step_of_error hstep, hsent, Array.append_empty]
      rw [herror, hmachine, playFrom, hstep]
      exact ⟨hall, rfl⟩
    · rw [hstep] at hplain
      rw [← withEarlier_takeSent output m'] at hplain
      obtain ⟨herror, hmachine⟩ := run_succ_of_ok hplain budget
      rw [herror, hmachine, playFrom, hstep]
      dsimp only
      split_ifs with hidle
      · have hawake (hpos : 0 < budget) : m'.cpu.stopped = false := by
          have hfirst := hstopped 1 Nat.one_pos (Nat.succ_lt_succ hpos)
          rwa [(run_succ_of_ok hplain 0).2] at hfirst
        obtain ⟨hnone, hserial⟩ :=
          run_of_isIdle (m := m'.takeSent.2.withEarlier (output ++ m'.takeSent.1)) hidle hawake
        rw [hnone, hserial]
        exact ⟨Array.append_empty.symm, rfl⟩
      · refine ih (m := m'.takeSent.2) _ rfl fun k hpos hk => ?_
        rw [← (run_succ_of_ok hplain k).2]
        exact hstopped (k + 1) (Nat.succ_pos k) (Nat.succ_lt_succ hk)

end Machine

/-! ### The report -/

section Report

variable (maxSteps : Nat) (messages : String) (m : Machine) (symbols : SymbolTable)

/-- The report holds the bytes that playing came to, also when it tells of a failure. -/
theorem output_playReport :
    (playReport maxSteps messages m symbols).output = (m.play maxSteps).output := by
  unfold playReport
  rcases m.play maxSteps with ⟨output, error, machine⟩
  cases error with
  | none => rfl
  | some e => rfl

/-- The report tells of a failure if playing came to an error. -/
theorem code_playReport_eq_zero_iff :
    (playReport maxSteps messages m symbols).code = 0 ↔ (m.play maxSteps).error = none := by
  unfold playReport
  rcases m.play maxSteps with ⟨output, error, machine⟩
  cases error with
  | none => exact iff_of_true rfl rfl
  | some e =>
    have hfailure : (1 : UInt8) ≠ 0 := by decide
    exact iff_of_false hfailure nofun

end Report

/-- **What is printed is what is sent.** Play a program on a machine whose serial link keeps no
bytes, for so many steps that the processor is not stopped before the last of them. The bytes
printed are those that the serial link keeps after a plain run of so many steps, up to its first
error: none of them is lost for being taken early, and none is sent after playing has ended. The
report tells of a failure exactly if that run meets an error, and playing comes to the same
error. -/
theorem printed_bytes_are_sent_bytes {m : Machine} (hsent : m.memory.serial.sent = #[])
    {maxSteps : Nat}
    (hstopped : ∀ k, 0 < k → k < maxSteps → (m.run k).2.cpu.stopped = false)
    (messages : String) (symbols : SymbolTable) :
    let plain := m.run maxSteps
    let report := playReport maxSteps messages m symbols
    report.output = plain.2.memory.serial.sent ∧
      (report.code = 0 ↔ plain.1.error = none) ∧
      (m.play maxSteps).error = plain.1.error := by
  intro plain report
  have hplayed := Machine.playFrom_eq #[] hsent maxSteps
  rw [m.withEarlier_empty] at hplayed
  obtain ⟨hbytes, herror⟩ := hplayed hstopped
  exact ⟨(output_playReport maxSteps messages m symbols).trans hbytes,
    (code_playReport_eq_zero_iff maxSteps messages m symbols).trans
      (by rw [← herror, Machine.play]),
    herror⟩

/-- A program that sends a byte and waits prints that byte, although playing ends with the wait and
a plain run goes on. -/
theorem byte_sent_before_halt_is_printed :
    let program : Array UInt8 := #[0x3E, 0x41, 0xE0, 0x01, 0x3E, 0x81, 0xE0, 0x02, 0x76]
    let m : Machine := ⟨{}, { cartridge := ⟨program, by decide⟩ }⟩
    m.memory.serial.sent = #[] ∧ (∀ k < 8, (m.run k).2.cpu.stopped = false) ∧
      (m.run 8).1.steps = 8 ∧ (m.run 8).2.memory.serial.sent = #[0x41] ∧
      (playReport 8 "" m {}).output = #[0x41] ∧ (playReport 8 "" m {}).code = 0 := by
  intro program m
  have hstopped : ∀ k < 8, (m.run k).2.cpu.stopped = false := by decide +kernel
  have hsent : (m.run 8).2.memory.serial.sent = #[0x41] := by decide +kernel
  have herror : (m.run 8).1.error = none := by decide +kernel
  obtain ⟨houtput, hcode, -⟩ := printed_bytes_are_sent_bytes (m := m) rfl
    (fun k _ hk => hstopped k hk) "" {}
  exact ⟨rfl, hstopped, by decide +kernel, hsent, houtput.trans hsent, hcode.mpr herror⟩

end Sm83
