import Sm83.Machine
import Sm83.Proofs.Cpu.Step

/-!
# Failing steps

A step of the processor fails at an opcode byte without a meaning, unless it is an idle slot. The
failure changes no register, no latch but one, no clock and no byte of memory. The one latch is that
of `HALT`: a pending interrupt ends the wait before the opcode is read, and the wait does not come
back when the opcode turns out to have no meaning.

## Main results

* `Cpu.upcoming?_eq_none_iff` — the idle slots.
* `Cpu.step_fails_iff`, `Cpu.step_of_error` — when a step fails, and what it leaves.
* `failing_step_changes_only_halt` — when a failing step leaves everything as it was.
-/

namespace Sm83

namespace Cpu

section Bus

variable {β : Type u} [Bus β] {c : Cpu} {bus : β}

/-- A step is an idle slot if the processor is stopped, or waits and no interrupt is pending. -/
theorem upcoming?_eq_none_iff :
    c.upcoming? bus = none ↔ c.stopped = true ∨ c.halted = true ∧ Bus.pending bus = 0 := by
  cases hstopped : c.stopped <;> simp [upcoming?, hstopped]

/-- A step fails if it is no idle slot and the byte at the program counter is an unassigned
opcode. -/
theorem step_fails_iff {e : CpuError} :
    (c.step bus).1 = .error e ↔
      ¬ (c.stopped = true ∨ c.halted = true ∧ Bus.pending bus = 0) ∧
        (ByteSource.read c.regs.pc bus).1 ∈ unassignedOpcodes ∧
          e = .invalidOpcode (ByteSource.read c.regs.pc bus).1 c.regs.pc := by
  rw [← upcoming?_eq_none_iff]
  rcases c.step_cases bus with ⟨hnone, hstep⟩ | ⟨op, hop, hencodable, hstep⟩ |
    ⟨b, hmem, hb, rfl, hstep⟩
  · rw [hstep]
    exact iff_of_false nofun fun h => h.1 hnone
  · rw [hstep]
    refine iff_of_false nofun fun ⟨_, hmem, _⟩ => ?_
    obtain rfl : (fetch c.regs.pc bus).1.operation = op := (step_of_upcoming?_eq_some hop).1
    rw [operation_fetch_unassigned hmem] at hencodable
    exact hencodable
  · rw [hstep]
    refine ⟨fun h => ⟨?_, hmem, (Except.error.inj h).symm⟩, fun h => congrArg _ h.2.2.symm⟩
    rw [hb]
    exact nofun

/-- A failing step leaves the processor as it was but for the wait of `HALT`, and the bus as it is
after the read of the opcode. -/
theorem step_of_error {e : CpuError} (h : (c.step bus).1 = .error e) :
    (c.step bus).2 = ({ c with halted := false }, (ByteSource.read c.regs.pc bus).2) := by
  rcases c.step_cases bus with ⟨-, hstep⟩ | ⟨op, -, -, hstep⟩ | ⟨b, -, -, -, hstep⟩
  · rw [hstep] at h
    cases h
  · rw [hstep] at h
    cases h
  · rw [hstep]

theorem with_halted_false_eq_iff : { c with halted := false } = c ↔ c.halted = false := by
  constructor
  · intro h
    rw [← h]
  · intro h
    rw [← h]

end Bus

end Cpu

/-- **A failing step changes only the wait of `HALT`.** A step of the processor fails exactly if it
is no idle slot and the byte at the program counter is an unassigned opcode, and its error names
both. Then memory, the registers, the clocks and the latches are as before, but that the processor
does not wait any more; so everything is as before exactly if it did not wait. -/
theorem failing_step_changes_only_halt (c : Cpu) (m : Memory) (e : CpuError) :
    ((c.step m).1 = .error e ↔
      ¬ (c.stopped = true ∨ c.halted = true ∧ Bus.pending m = 0) ∧
        m.read8 c.regs.pc ∈ unassignedOpcodes ∧
          e = .invalidOpcode (m.read8 c.regs.pc) c.regs.pc) ∧
    ((c.step m).1 = .error e →
      (c.step m).2 = ({ c with halted := false }, m) ∧
        ((c.step m).2 = (c, m) ↔ c.halted = false)) := by
  refine ⟨Cpu.step_fails_iff, fun h => ?_⟩
  have hafter : (c.step m).2 = ({ c with halted := false }, m) := Cpu.step_of_error h
  refine ⟨hafter, ?_⟩
  rw [hafter, Prod.mk.injEq, Cpu.with_halted_false_eq_iff, and_iff_left rfl]

/-- With the latch of `EI` set, a processor that does not wait fails at the opcode `0xD3` and is
left as it was. -/
theorem failing_step_keeps_ei_latch :
    let m : Memory := { cartridge := ⟨#[0xD3], by decide⟩ }
    let c : Cpu := { eiPending := true }
    (c.step m).1 = .error (.invalidOpcode 0xD3 0) ∧ (c.step m).2 = (c, m) := by
  intro m c
  have h := failing_step_changes_only_halt c m (.invalidOpcode 0xD3 0)
  have hfails : (c.step m).1 = .error (.invalidOpcode 0xD3 0) :=
    h.1.mpr ⟨by decide, by decide, rfl⟩
  exact ⟨hfails, (h.2 hfails).2.mpr rfl⟩

/-- A processor that executes `HALT` waits; when an interrupt is then requested, it fails at the
opcode `0xD3` that follows, and waits no more. -/
theorem failing_step_ends_halt :
    let m : Memory := { cartridge := ⟨#[0x76, 0xD3], by decide⟩ }
    let c : Cpu := (({} : Cpu).step m).2.1
    let requested : Memory := { m with requests := 0x04, enables := 0x04 }
    c.halted = true ∧ (c.step requested).1 = .error (.invalidOpcode 0xD3 1) ∧
      (c.step requested).2.1.halted = false := by
  intro m c requested
  exact ⟨by decide, Cpu.step_fails_iff.mpr ⟨by decide, by decide, by decide⟩, by decide⟩

end Sm83
