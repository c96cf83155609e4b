import Mathlib.Control.Monad.Basic
import Sm83.Proofs.Machine.Accesses
import Sm83.Proofs.Memory.Watched

/-!
# The requests in a step

In a step the processor executes and the timer catches up; both can make the timer or the serial
link request its interrupt. Then an interrupt may be dispatched: its request is withdrawn, and the
program counter is pushed. The push writes to memory after the withdrawal, so where the stack lies
on the registers of a device the push can make requests as well, even that of the interrupt that is
being dispatched. No request is lost on the way, and none is made but by these two devices.

## Main definitions

* `Machine.executed`, `Machine.serviced` — the memory after either part of a step, and what was seen
  of the devices in that part.

## Main results

* `Interrupt.mask_le_of_first?` — the interrupt of the lowest bit is found.
* `Machine.executed_of_ok`, `Machine.memory_serviced` — the parts that are watched are those of the
  step.
* `Machine.requests_executed`, `Machine.requests_step_of_dispatched?_some`,
  `Machine.requests_step_of_dispatched?_none` — the requests after either part of a step.
* `requests_after_step` — the requests after a step that does not write to `IF`.
-/

namespace Sm83

/-! ### Bits of the requests -/

namespace Interrupt

theorem mem_all (i : Interrupt) : i ∈ all := by
  cases i <;> decide

/-- The interrupts stand in the order of their bits. -/
theorem pairwise_mask_all : all.Pairwise fun i j => i.mask ≤ j.mask := by
  decide

/-- The interrupt that is found is pending, and none that is pending has a lower bit. -/
theorem mask_le_of_first? {pending : UInt8} {i : Interrupt} (h : first? pending = some i) :
    pending &&& i.mask ≠ 0 ∧ ∀ j : Interrupt, pending &&& j.mask ≠ 0 → i.mask ≤ j.mask := by
  obtain ⟨hfound, before, after, hall, hbefore⟩ := List.find?_eq_some_iff_append.mp h
  refine ⟨by simpa using hfound, fun j hj => ?_⟩
  have hmem := mem_all j
  have hsorted := pairwise_mask_all
  rw [hall] at hmem hsorted
  obtain ⟨-, hfrom, -⟩ := List.pairwise_append.mp hsorted
  rcases List.mem_append.mp hmem with hj' | hj'
  · exact absurd (by simpa using hbefore j hj') hj
  · rcases List.mem_cons.mp hj' with rfl | hafter
    · exact UInt8.le_refl _
    · exact (List.pairwise_cons.mp hfrom).1 j hafter

/-- A request sets no other bit. -/
theorem request_and_mask {i j : Interrupt} (h : i.mask &&& j.mask = 0) (raised : Bool)
    (requests : UInt8) : i.request raised requests &&& j.mask = requests &&& j.mask := by
  cases raised with
  | false => rfl
  | true =>
    have hnat : i.mask.toNat &&& j.mask.toNat = 0 := congrArg UInt8.toNat h
    apply UInt8.toNat_inj.mp
    rw [toNat_request_and, hnat, Nat.or_zero, UInt8.toNat_and]

/-- A withdrawal sets no bit. -/
theorem clear_and_eq_zero (i : Interrupt) {requests mask : UInt8} (h : requests &&& mask = 0) :
    i.clear requests &&& mask = 0 := by
  rw [clear, UInt8.and_assoc, UInt8.and_comm (~~~i.mask), ← UInt8.and_assoc, h, UInt8.zero_and]

end Interrupt

namespace Watched

/-- Only the timer and the serial link make requests. -/
theorem raised_and_mask (w : Watched) (requests : UInt8) {i : Interrupt} (htimer : i ≠ .timer)
    (hserial : i ≠ .serial) : w.raised requests &&& i.mask = requests &&& i.mask := by
  obtain ⟨hfirst, hsecond⟩ :
      Interrupt.timer.mask &&& i.mask = 0 ∧ Interrupt.serial.mask &&& i.mask = 0 := by
    cases i with
    | timer => exact absurd rfl htimer
    | serial => exact absurd rfl hserial
    | vblank | stat | joypad => decide
  rw [raised, Interrupt.request_and_mask hfirst, Interrupt.request_and_mask hsecond]

/-- The service of interrupts on a watched memory is that on the memory. -/
theorem memory_serviceInterrupts (c : Cpu) (w : Watched) :
    (c.serviceInterrupts w).2.2.memory = (c.serviceInterrupts w.memory).2.2 := by
  have hack (i : Interrupt) {w : Watched} {m : Memory} (h : w.memory = m) :
      (Bus.acknowledge i w).memory = Bus.acknowledge i m := by
    subst h
    rfl
  exact (simulation.serviceInterrupts hack rfl fun _ _ => trivial).2.2

end Watched

/-! ### The two parts of a step -/

namespace Machine

/-- The memory after the processor's and the timer's part of a step, and what was seen of the
devices in that part. -/
def executed (m : Machine) : Watched :=
  match m.cpu.step ({ memory := m.memory } : Watched) with
  | (.error _, _, w) => w
  | (.ok clocks, _, w) => w.elapse clocks

/-- The memory after the service of interrupts that ends a step, and what was seen of the devices in
that part. -/
def serviced (m : Machine) : Watched :=
  match m.cpu.step ({ memory := m.memory } : Watched) with
  | (.error _, _, w) => { memory := w.memory }
  | (.ok clocks, cpu, w) =>
    (cpu.serviceInterrupts ({ memory := (w.elapse clocks).memory } : Watched)).2.2

variable {m : Machine} {n : Nat} {cpu : Cpu} {memory : Memory}

theorem executed_of_ok (hstep : m.cpu.step m.memory = (.ok n, cpu, memory)) :
    m.executed = (m.cpu.step ({ memory := m.memory } : Watched)).2.2.elapse n ∧
      m.executed.memory = memory.elapse n := by
  obtain ⟨hresult, -, hmemory, -⟩ := Watched.step_eq m.cpu { memory := m.memory }
  rw [hstep] at hresult hmemory
  unfold executed
  rcases hwatched : m.cpu.step ({ memory := m.memory } : Watched) with ⟨result, cpu', w⟩
  rw [hwatched] at hresult hmemory
  obtain rfl : result = .ok n := hresult
  obtain rfl : w.memory = memory := hmemory
  exact ⟨rfl, w.memory_elapse n⟩

theorem serviced_of_ok (hstep : m.cpu.step m.memory = (.ok n, cpu, memory)) :
    m.serviced = (cpu.serviceInterrupts ({ memory := memory.elapse n } : Watched)).2.2 := by
  obtain ⟨hresult, hcpu, hmemory, -⟩ := Watched.step_eq m.cpu { memory := m.memory }
  rw [hstep] at hresult hcpu hmemory
  unfold serviced
  rcases hwatched : m.cpu.step ({ memory := m.memory } : Watched) with ⟨result, cpu', w⟩
  rw [hwatched] at hresult hcpu hmemory
  obtain rfl : result = .ok n := hresult
  obtain rfl : cpu' = cpu := hcpu
  obtain rfl : w.memory = memory := hmemory
  rw [← w.memory_elapse n]

/-- The second part of a step ends where the step does. -/
theorem memory_serviced (hstep : m.cpu.step m.memory = (.ok n, cpu, memory)) :
    m.serviced.memory = m.step.2.memory := by
  rw [serviced_of_ok hstep, Watched.memory_serviceInterrupts, (step_of_ok hstep).2]

/-- What was seen in the first part of a step accounts for the requests after it. -/
theorem accounts_executed (hmode : m.memory.isFlat = false)
    (hstep : m.cpu.step m.memory = (.ok n, cpu, memory)) :
    Watched.Accounts m.memory.requests ⟨m.executed, m.cpu.accesses m.memory⟩ := by
  let start : Watched := { memory := m.memory }
  have hstart : Watched.Accounts m.memory.requests { bus := start } := ⟨hmode, fun _ => rfl⟩
  have hcpu := (Watched.accounts_invariant _).step hstart m.cpu
  rw [Cpu.step_journal, List.nil_append, (Watched.step_eq m.cpu start).2.2.2] at hcpu
  rw [(executed_of_ok hstep).1]
  exact hcpu.elapse n

/-- The first part of a step adds the requests of the devices. -/
theorem requests_executed (hmode : m.memory.isFlat = false)
    (hstep : m.cpu.step m.memory = (.ok n, cpu, memory))
    (hwrite : Access.write 0xFF0F ∉ m.accesses) :
    m.executed.memory.requests = m.executed.raised m.memory.requests := by
  rw [accesses_of_ok hstep] at hwrite
  exact (accounts_executed hmode hstep).requests_eq fun hmem =>
    hwrite (List.mem_append_left _ hmem)

/-- Without a dispatch the second part of a step changes nothing. -/
theorem requests_step_of_dispatched?_none (hstep : m.cpu.step m.memory = (.ok n, cpu, memory))
    (hdispatch : m.dispatched? = none) :
    m.step.2.memory.requests = m.executed.memory.requests := by
  rw [(step_of_ok hstep).1] at hdispatch
  rw [(step_of_ok hstep).2, Cpu.serviceInterrupts_of_dispatch?_none hdispatch,
    (executed_of_ok hstep).2]

/-- A dispatch withdraws the request of its interrupt, and then its push adds the requests of the
devices. -/
theorem requests_step_of_dispatched?_some (hmode : m.memory.isFlat = false)
    (hstep : m.cpu.step m.memory = (.ok n, cpu, memory))
    (hwrite : Access.write 0xFF0F ∉ m.accesses) {i : Interrupt}
    (hdispatch : m.dispatched? = some i) :
    m.step.2.memory.requests = m.serviced.raised (i.clear m.executed.memory.requests) := by
  have hmode' : (memory.elapse n).isFlat = false := by
    have hexecuted := (accounts_executed hmode hstep).isFlat_eq
    rwa [(executed_of_ok hstep).2] at hexecuted
  rw [(step_of_ok hstep).1] at hdispatch
  rw [accesses_of_ok hstep, Cpu.serviceAccesses, hdispatch, Option.isSome_some,
    if_pos rfl] at hwrite
  let asked : Watched := { memory := memory.elapse n }
  let pushed : Journal Watched :=
    Bus.write (cpu.regs.sp - 1 - 1) (lowByte cpu.regs.pc)
      (Bus.write (cpu.regs.sp - 1) (highByte cpu.regs.pc) { bus := Bus.acknowledge i asked })
  have hwithdrawn : Watched.Accounts (i.clear (memory.elapse n).requests)
      { bus := Bus.acknowledge i asked } := ⟨hmode', fun _ => rfl⟩
  have hinvariant := Watched.accounts_invariant (i.clear (memory.elapse n).requests)
  have hpushed : Watched.Accounts (i.clear (memory.elapse n).requests) pushed :=
    hinvariant.write _ _ (hinvariant.write _ _ hwithdrawn)
  have hbus : m.serviced = pushed.bus := by
    have hasked : cpu.dispatch? asked = some i := hdispatch
    rw [serviced_of_ok hstep, Cpu.serviceInterrupts_of_dispatch?_some hasked]
    rfl
  rw [← memory_serviced hstep, hbus, (executed_of_ok hstep).2]
  exact hpushed.requests_eq fun hmem => hwrite (List.mem_append_right _ hmem)

end Machine

/-- **No request is lost.** Let a step in the usual mode succeed, and let nothing be written to `IF`
in it, be it by an operation or by the push of a dispatch. The processor's and the timer's part of
the step adds to the requests the timer's bit exactly if the counter overflowed, and the serial
link's bit exactly if a transfer was completed. An interrupt is dispatched exactly if interrupts are
enabled then and an enabled one is pending, and it is the one of the lowest bit. Without a dispatch
these are the requests after the step. A dispatch takes away that bit alone, after which its push
adds the bits of what it makes of the devices. The other three bits are never set. -/
theorem requests_after_step {m : Machine} (hmode : m.memory.isFlat = false) {clocks : Nat}
    (hok : m.step.1 = .ok clocks) (hwrite : Access.write 0xFF0F ∉ m.accesses) :
    m.executed.memory.requests = m.executed.raised m.memory.requests ∧
    ((∃ i, m.dispatched? = some i) ↔
      (m.cpu.step m.memory).2.1.regs.ime = true ∧ Bus.pending m.executed.memory ≠ 0) ∧
    (m.dispatched? = none → m.step.2.memory.requests = m.executed.memory.requests) ∧
    (∀ i, m.dispatched? = some i →
      (Bus.pending m.executed.memory &&& i.mask ≠ 0 ∧
        ∀ j : Interrupt, Bus.pending m.executed.memory &&& j.mask ≠ 0 → i.mask ≤ j.mask) ∧
      m.step.2.memory.requests = m.serviced.raised (i.clear m.executed.memory.requests)) ∧
    (∀ i : Interrupt, i ≠ .timer → i ≠ .serial → m.memory.requests &&& i.mask = 0 →
      m.step.2.memory.requests &&& i.mask = 0) := by
  obtain ⟨n, hn⟩ := Machine.step_eq_ok_iff.mp ⟨clocks, hok⟩
  rcases hstep : m.cpu.step m.memory with ⟨result, cpu, memory⟩
  obtain rfl : result = .ok n := by rw [← hn, hstep]
  have hexecuted := Machine.requests_executed hmode hstep hwrite
  have hnone := Machine.requests_step_of_dispatched?_none hstep
  have hsome (i : Interrupt) :=
    Machine.requests_step_of_dispatched?_some hmode hstep hwrite (i := i)
  have hmemory := (Machine.executed_of_ok hstep).2
  have hdispatched := (Machine.step_of_ok hstep).1
  refine ⟨hexecuted, ?_, hnone, fun i hi => ⟨?_, hsome i hi⟩, fun i htimer hserial hbit => ?_⟩
  · rw [hdispatched, hmemory, ← Option.isSome_iff_exists, ← Option.ne_none_iff_isSome, Ne,
      Cpu.dispatch?_eq_none_iff, not_or, Bool.not_eq_false]
  · rw [hdispatched, Cpu.dispatch?] at hi
    split_ifs at hi
    rw [hmemory]
    exact Interrupt.mask_le_of_first? hi
  · have hexecuted₀ : m.executed.memory.requests &&& i.mask = 0 := by
      rw [hexecuted, Watched.raised_and_mask _ _ htimer hserial, hbit]
    cases hdispatch : m.dispatched? with
    | none => rw [hnone hdispatch, hexecuted₀]
    | some j =>
      rw [hsome j hdispatch, Watched.raised_and_mask _ _ htimer hserial,
        Interrupt.clear_and_eq_zero j hexecuted₀]

/-- In a `NOP` the counter overflows, and the interrupt of the timer is dispatched at once. -/
theorem timer_request_is_served :
    let memory : Memory :=
      { cartridge := ⟨#[0x00], by decide⟩, requests := 0x10, enables := 0x04
        timer := { div := 0x000D, tima := 0xFF, tac := 0x05, latch := true } }
    let m : Machine := ⟨{ regs := { sp := 0xE000, ime := true } }, memory⟩
    m.memory.isFlat = false ∧ m.step.1 = .ok 24 ∧ Access.write 0xFF0F ∉ m.accesses ∧
      m.executed.overflowed = true ∧ m.dispatched? = some .timer ∧
      m.executed.memory.requests = m.executed.raised 0x10 ∧
      m.step.2.memory.requests = m.serviced.raised (Interrupt.timer.clear 0x14) := by
  intro memory m
  have hok : m.step.1 = .ok 24 := by decide +kernel
  have hwrite : Access.write 0xFF0F ∉ m.accesses := by decide +kernel
  have hdispatched : m.dispatched? = some .timer := by decide +kernel
  obtain ⟨hexecuted, -, -, hserved, -⟩ := requests_after_step rfl hok hwrite
  exact ⟨rfl, hok, hwrite, by decide +kernel, hdispatched, hexecuted,
    (hserved .timer hdispatched).2.trans (by decide +kernel)⟩

/-- Where the stack lies on the registers of the serial link, the push of a dispatch completes a
transfer: the interrupt of the serial link is requested again after it was withdrawn. So the
requests are not those of before and those made in the step without that of the interrupt that was
dispatched. -/
theorem dispatch_requests_itself_again :
    let memory : Memory := { requests := 0x08, enables := 0x08 }
    let m : Machine :=
      ⟨{ regs := { RegisterFile.postBoot with pc := 0xC100, sp := 0xFF03, ime := true } }, memory⟩
    m.memory.isFlat = false ∧ m.memory.requests &&& 0xE0 = 0 ∧ m.step.1 = .ok 24 ∧
      Access.write 0xFF0F ∉ m.accesses ∧ m.dispatched? = some .serial ∧
      m.serviced.transferred = true ∧ m.step.2.memory.requests = 0x08 ∧
      m.step.2.memory.requests ≠
        Interrupt.serial.clear (m.serviced.raised (m.executed.raised m.memory.requests)) := by
  intro memory m
  exact ⟨rfl, by decide, by decide +kernel, by decide +kernel, by decide +kernel, by decide +kernel,
    by decide +kernel, by decide +kernel⟩

end Sm83
