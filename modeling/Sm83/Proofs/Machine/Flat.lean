import Sm83.Proofs.Cpu.Failure
import Sm83.Proofs.Machine.Images
import Sm83.Proofs.Memory.PlainRam

/-!
# The machine in flat mode

In flat mode the devices are there, but no access reaches them and no clock passes for them. All
accesses see plain RAM, and the devices stay as they were made. Since no interrupt is enabled in
them, none is ever pending. So a step of the machine is a step of the processor alone, and a
processor that waits does so until the host replaces it.

## Main definitions

* `Memory.plain` — a memory in flat mode with untouched devices.

## Main results

* `Memory.plain_invariant` — accesses change nothing but the RAM.
* `Machine.step_of_plain`, `Machine.memory_perform_of_plain` — steps and actions of the host leave
  the devices untouched.
* `Machine.cpu_performAll_of_halted` — how long a processor waits.
* `flat_mode_has_no_devices` — all of this for the machines that are reached.
-/

namespace Sm83

namespace Memory

/-- A memory in flat mode with the given images and RAM, and everything else as it was made. -/
def plain (cartridge : Cartridge) (boot : BootImage) (bootMapped : Bool)
    (ram : Vector UInt8 0x10000) : Memory :=
  { emptyFlat with
    cartridge := cartridge, boot := boot, bootMapped := bootMapped, flat := some ram }

section Plain

variable (cartridge : Cartridge) (boot : BootImage) (bootMapped : Bool) (ram : Vector UInt8 0x10000)

/-- No interrupt is enabled. -/
theorem pending_plain : Bus.pending (plain cartridge boot bootMapped ram) = 0 := by
  have hnone : (0x01 : UInt8) &&& 0x00 &&& Interrupt.allMask = 0 := by decide
  exact hnone

/-- Accesses change nothing but the RAM. -/
theorem plain_invariant :
    Bus.Invariant fun m => ∃ ram, m = plain cartridge boot bootMapped ram where
  read _ h := h
  write a v := by
    rintro ⟨ram, rfl⟩
    exact ⟨ram.set a.toFin v, rfl⟩

end Plain

end Memory

namespace Machine

variable {m : Machine} {cartridge : Cartridge} {boot : BootImage} {bootMapped : Bool}
  {ram : Vector UInt8 0x10000}

/-! ### Steps and actions -/

/-- In flat mode a step is a step of the processor: the timer stands still, and no interrupt is
dispatched. -/
theorem step_of_plain (h : m.memory = .plain cartridge boot bootMapped ram) :
    m.dispatched? = none ∧
      m.step = ((m.cpu.step m.memory).1,
        ⟨(m.cpu.step m.memory).2.1, (m.cpu.step m.memory).2.2⟩) := by
  rcases hstep : m.cpu.step m.memory with ⟨e | n, cpu, memory⟩
  · exact step_of_error hstep
  · obtain ⟨ram', hram'⟩ :=
      (Memory.plain_invariant cartridge boot bootMapped).step ⟨ram, h⟩ m.cpu
    obtain rfl : memory = .plain cartridge boot bootMapped ram' := by rw [← hram', hstep]
    have hpending := Memory.pending_plain cartridge boot bootMapped ram'
    have hnone : cpu.dispatch? (Memory.plain cartridge boot bootMapped ram') = none :=
      (Cpu.dispatch?_eq_none_iff _ _).mpr (.inr hpending)
    have hfirst : Interrupt.first? (Bus.pending (Memory.plain cartridge boot bootMapped ram')) =
        none := by
      rw [hpending]
      rfl
    obtain ⟨hdispatched, hmachine⟩ := step_of_ok hstep
    rw [Memory.elapse_of_isFlat rfl] at hdispatched hmachine
    rw [hdispatched, hmachine, Cpu.serviceInterrupts_of_first?_eq_none _ _ hfirst]
    exact ⟨hnone, rfl⟩

/-- Steps and writes change nothing of the memory but the RAM. -/
theorem memory_perform_of_not_load (h : m.memory = .plain cartridge boot bootMapped ram)
    {a : Action} (ha : a = .step ∨ a.isWrite = true) :
    ∃ ram', (m.perform a).memory = .plain cartridge boot bootMapped ram' := by
  have hkept := Memory.plain_invariant cartridge boot bootMapped
  cases a with
  | step =>
    have hstep := hkept.step ⟨ram, h⟩ m.cpu
    rwa [perform, (step_of_plain h).2]
  | write8 addr v => exact hkept.write addr v ⟨ram, h⟩
  | write16 addr w => exact hkept.write _ _ (hkept.write _ _ ⟨ram, h⟩)
  | loadRom bytes | loadBootRom bytes | reset => simp [Action.isWrite] at ha

/-- No action of the host reaches the devices. -/
theorem memory_perform_of_plain (h : m.memory = .plain cartridge boot bootMapped ram) (a : Action) :
    ∃ cartridge' boot' bootMapped' ram',
      (m.perform a).memory = .plain cartridge' boot' bootMapped' ram' := by
  cases a with
  | loadRom bytes =>
    rcases m.perform_loadRom bytes with hm | ⟨image, hm⟩
    · exact ⟨_, _, _, _, by rw [hm, h]⟩
    · exact ⟨image, boot, bootMapped, Memory.overlay image ram, by rw [hm, h]; rfl⟩
  | loadBootRom bytes =>
    rcases m.perform_loadBootRom bytes with hm | ⟨image, hm⟩
    · exact ⟨_, _, _, _, by rw [hm, h]⟩
    · exact ⟨cartridge, image, true, ram, by rw [hm, h]; rfl⟩
  | reset => exact ⟨cartridge, boot, !boot.isEmpty, _, by rw [perform, reset, h]; rfl⟩
  | step => exact ⟨_, _, _, memory_perform_of_not_load h (.inl rfl)⟩
  | write8 | write16 => exact ⟨_, _, _, memory_perform_of_not_load h (.inr rfl)⟩

/-- Nothing that the host does reaches the devices. -/
theorem memory_performAll_of_plain (h : m.memory = .plain cartridge boot bootMapped ram)
    (actions : List Action) :
    ∃ cartridge' boot' bootMapped' ram',
      (m.performAll actions).memory = .plain cartridge' boot' bootMapped' ram' := by
  refine performAll_induction (P := fun m => ∃ cartridge boot bootMapped ram,
    m.memory = .plain cartridge boot bootMapped ram) ⟨_, _, _, _, h⟩ ?_
  rintro m ⟨_, _, _, _, h⟩ a -
  exact memory_perform_of_plain h a

/-! ### Waiting -/

/-- Without interrupts, a step of a processor that waits is an idle slot. -/
theorem step_of_halted (h : m.memory = .plain cartridge boot bootMapped ram)
    (hhalted : m.cpu.halted = true) :
    m.step = (.ok Cpu.idleClocks, { m with cpu := m.cpu.spend Cpu.idleClocks }) := by
  have hpending : Bus.pending m.memory = 0 := by rw [h, Memory.pending_plain]
  have hnone : m.cpu.upcoming? m.memory = none :=
    Cpu.upcoming?_eq_none_iff.mpr (.inr ⟨hhalted, hpending⟩)
  rw [(step_of_plain h).2, Cpu.step_of_upcoming?_eq_none hnone]

/-- An action that does not replace the processor lets it wait on. -/
theorem cpu_perform_of_halted (h : m.memory = .plain cartridge boot bootMapped ram)
    (hhalted : m.cpu.halted = true) {a : Action} (hreset : a ≠ .reset)
    (hboot : m.acceptedBootRom? a = none) :
    (m.perform a).cpu = m.cpu.spend (Cpu.idleClocks * [a].count .step) := by
  cases a with
  | loadRom bytes =>
    rcases m.perform_loadRom bytes with hm | ⟨image, hm⟩
    · rw [hm]
      rfl
    · rw [hm]
      rfl
  | loadBootRom bytes =>
    have hrefused : m.perform (.loadBootRom bytes) = m := by
      cases hload : m.loadBootRom bytes with
      | error e => simp only [perform, hload, Except.toOption, Option.getD_none]
      | ok m' => simp [acceptedBootRom?, hload, Except.isOk, Except.toBool] at hboot
    rw [hrefused]
    rfl
  | step =>
    rw [perform, step_of_halted h hhalted]
    rfl
  | reset => exact absurd rfl hreset
  | write8 | write16 => rfl

/-- A processor that waits in flat mode does so until the host replaces it, by a reset or with a
boot ROM. -/
theorem cpu_performAll_of_halted (h : m.memory = .plain cartridge boot bootMapped ram)
    (hhalted : m.cpu.halted = true) {actions : List Action} (hreset : ∀ a ∈ actions, a ≠ .reset)
    (hboot : m.last? acceptedBootRom? actions = none) :
    (m.performAll actions).cpu = m.cpu.spend (Cpu.idleClocks * actions.count .step) := by
  induction actions generalizing m cartridge boot bootMapped ram with
  | nil => rfl
  | cons a actions ih =>
    obtain ⟨hfirst, hrest⟩ := List.forall_mem_cons.mp hreset
    obtain ⟨hbootRest, hbootFirst⟩ := Option.or_eq_none_iff.mp hboot
    obtain ⟨_, _, _, _, hmemory⟩ := memory_perform_of_plain h a
    have hcpu := cpu_perform_of_halted h hhalted hfirst hbootFirst
    have hhalted' : (m.perform a).cpu.halted = true := by
      rw [hcpu]
      exact hhalted
    calc ((m.perform a).performAll actions).cpu
      _ = (m.perform a).cpu.spend (Cpu.idleClocks * actions.count .step) :=
        ih hmemory hhalted' hrest hbootRest
      _ = m.cpu.spend (Cpu.idleClocks * ([a].count .step + actions.count .step)) := by
        rw [hcpu, Nat.mul_add]
        simp only [Cpu.spend, Nat.add_assoc]
      _ = m.cpu.spend (Cpu.idleClocks * (a :: actions).count .step) := by
        rw [← List.count_append]
        rfl

end Machine

/-- **Flat mode has no devices.** Whatever the host does with a new machine in flat mode, also by
resets and by actions that fail, its memory is an array of 64 KiB: a write changes the byte at its
address and no other. The timer, the serial link, the requests of interrupts, the enabled interrupts
and the I/O page stay as they were made, and neither steps nor writes map or unmap the boot ROM. A
step is what the processor's step is, and dispatches no interrupt. A processor that waits does so
for ever, whatever the host does, unless it resets the machine or loads a boot ROM, which both put
another processor in its place. -/
theorem flat_mode_has_no_devices (actions : List Machine.Action) :
    let m := Machine.emptyFlat.performAll actions
    (∃ ram : Vector UInt8 0x10000, m.memory.flat = some ram ∧
      ∀ a, m.memory.read8 a = ram[a.toFin]) ∧
    (∀ a b v, (m.memory.write8 a v).read8 b = if b = a then v else m.memory.read8 b) ∧
    (m.memory.timer = Memory.emptyFlat.timer ∧ m.memory.serial = Memory.emptyFlat.serial ∧
      m.memory.requests = Memory.emptyFlat.requests ∧
      m.memory.enables = Memory.emptyFlat.enables ∧ m.memory.io = Memory.emptyFlat.io) ∧
    (∀ a : Machine.Action, a = .step ∨ a.isWrite = true →
      (m.perform a).memory.bootMapped = m.memory.bootMapped) ∧
    m.step = ((m.cpu.step m.memory).1,
      ⟨(m.cpu.step m.memory).2.1, (m.cpu.step m.memory).2.2⟩) ∧
    m.dispatched? = none ∧
    (m.cpu.halted = true → ∀ more : List Machine.Action, (∀ a ∈ more, a ≠ .reset) →
      m.last? Machine.acceptedBootRom? more = none →
      let m' := m.performAll more
      m'.cpu = m.cpu.spend (Cpu.idleClocks * more.count .step) ∧
        m'.step = (.ok Cpu.idleClocks, { m' with cpu := m'.cpu.spend Cpu.idleClocks })) := by
  intro m
  have hnew : Machine.emptyFlat.memory = .plain .empty .empty false (.replicate 0x10000 0) := rfl
  obtain ⟨cartridge, boot, bootMapped, ram, h⟩ := Machine.memory_performAll_of_plain hnew actions
  have hm : m.memory = .plain cartridge boot bootMapped ram := h
  have hflat : m.memory.isFlat = true := by rw [hm]; rfl
  obtain ⟨hdispatched, hstep⟩ := Machine.step_of_plain hm
  refine ⟨⟨ram, ?_, fun a => ?_⟩, fun a b v => Memory.read8_write8_of_isFlat hflat a b v, ?_,
    fun a ha => ?_, hstep, hdispatched, fun hhalted more hreset hboot => ?_⟩
  · rw [hm]
    rfl
  · rw [hm]
    rfl
  · rw [hm]
    exact ⟨rfl, rfl, rfl, rfl, rfl⟩
  · obtain ⟨ram', hram'⟩ := Machine.memory_perform_of_not_load hm ha
    rw [hram', hm]
    rfl
  · have hcpu := Machine.cpu_performAll_of_halted hm hhalted hreset hboot
    obtain ⟨_, _, _, _, hmore⟩ := Machine.memory_performAll_of_plain hm more
    have hhalted' : (m.performAll more).cpu.halted = true := by
      rw [hcpu]
      exact hhalted
    exact ⟨hcpu, Machine.step_of_halted hmore hhalted'⟩

/-- A processor that comes to `HALT` in flat mode waits on after `IF` and `IE` were written to and
an empty boot ROM was refused. -/
theorem halt_outlasts_requests_in_flat_mode :
    let m := Machine.emptyFlat.performAll [.write8 0x0000 0x76, .step]
    let more : List Machine.Action :=
      [.write8 0xFF0F 0x1F, .write8 0xFFFF 0x1F, .step, .loadBootRom #[], .step]
    m.cpu.halted = true ∧ (∀ a ∈ more, a ≠ .reset) ∧
      m.last? Machine.acceptedBootRom? more = none ∧
      (m.performAll more).cpu = m.cpu.spend 8 ∧ (m.performAll more).step.1 = .ok 4 := by
  intro m more
  have hhalted : m.cpu.halted = true := by decide +kernel
  have hreset : ∀ a ∈ more, a ≠ .reset := by decide
  have hboot : m.last? Machine.acceptedBootRom? more = none := rfl
  obtain ⟨-, -, -, -, -, -, hwaits⟩ :=
    flat_mode_has_no_devices [.write8 0x0000 0x76, .step]
  obtain ⟨hcpu, hstep⟩ := hwaits hhalted more hreset hboot
  exact ⟨hhalted, hreset, hboot, hcpu, congrArg Prod.fst hstep⟩

end Sm83
