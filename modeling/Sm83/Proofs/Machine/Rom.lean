import Sm83.Proofs.Machine.Images

/-!
# ROM and the lock of the boot ROM

The lower half of the address space shows the image of the cartridge that was accepted last, and
its first page the boot ROM instead, as long as that is mapped. Nothing but a load changes what is
shown there. Steps and writes never map the boot ROM, and a write to its lock unmaps it for good.

## Main definitions

* `Machine.Action.accesses`, `Machine.accessesAll` — the accesses to memory in the course of
  actions.

## Main results

* `Memory.read8_of_rom` — reads of the lower half of the address space.
* `Machine.bootMapped_step` — a step unmaps the boot ROM exactly by a write to the lock.
* `Machine.bootMapped_performAll` — the same of any steps and writes.
* `rom_shows_last_images` — what is read of ROM, and when the boot ROM is mapped.
-/

namespace Sm83

/-! ### Reads of ROM -/

/-- The bytes of an accepted cartridge are those of its image, as far as it can be addressed. -/
theorem read_of_cartridgeOf? {bytes : Array UInt8} {cartridge : Cartridge}
    (h : cartridgeOf? bytes = .ok cartridge) {offset : Nat} (hoffset : offset < 0x8000) :
    cartridge.read offset = bytes.getD offset 0xFF := by
  unfold cartridgeOf? at h
  split_ifs at h
  cases h
  have hinside : offset < bytes.size ↔ offset < min 0x8000 bytes.size - 0 := by omega
  simp only [Image.truncated, Image.read, openBus, Array.getD_eq_getD_getElem?,
    Array.getElem?_extract, Nat.zero_add, ← hinside]
  by_cases hbytes : offset < bytes.size
  · rw [if_pos hbytes]
  · rw [if_neg hbytes, Array.getElem?_eq_none (Nat.not_lt.mp hbytes)]

theorem read_of_bootImageOf? {bytes : Array UInt8} {image : BootImage}
    (h : bootImageOf? bytes = .ok image) (offset : Nat) :
    image.read offset = bytes.getD offset 0xFF := by
  unfold bootImageOf? at h
  split_ifs at h
  cases h
  rfl

/-- In the usual mode the boot ROM answers in the first page while it is mapped, and the cartridge
in the rest of the lower half of the address space. -/
theorem Memory.read8_of_rom {m : Memory} (hmode : m.isFlat = false) {a : UInt16} (ha : a < 0x8000) :
    m.read8 a = if m.bootMapped = true ∧ a < 0x0100 then m.boot.read a.toNat
      else m.cartridge.read a.toNat := by
  simp only [UInt16.lt_iff_toNat_lt, UInt16.reduceToNat] at ha ⊢
  rw [read8_of_not_isFlat hmode, resolve]
  unfold locate
  dsimp only
  by_cases h₀ : m.bootMapped = true ∧ a.toNat < 0x100
  · rw [dif_pos h₀, if_pos h₀]
    rfl
  rw [dif_neg h₀, if_neg h₀]
  by_cases h₁ : a.toNat < 0x4000
  · rw [dif_pos h₁]
    rfl
  · rw [dif_neg h₁, dif_pos ha]
    exact congrArg m.cartridge.read (Nat.add_sub_cancel' (Nat.not_lt.mp h₁))

/-! ### The lock of the boot ROM -/

/-- A write in the usual mode unmaps the boot ROM if it is one to the lock, and does not map it. -/
theorem Memory.bootMapped_write8_iff {m : Memory} (hmode : m.isFlat = false) (a : UInt16)
    (v : UInt8) : (m.write8 a v).bootMapped = true ↔ m.bootMapped = true ∧ 0xFF50 ≠ a := by
  rw [bootMapped_write8 hmode, Bool.and_eq_true, decide_eq_true_iff, ne_comm]

namespace Machine

/-- A step in the usual mode unmaps the boot ROM if it writes to the lock, and does not map it. -/
theorem bootMapped_step {m : Machine} (hmode : m.memory.isFlat = false) :
    m.step.2.memory.bootMapped = true ↔
      m.memory.bootMapped = true ∧ Access.write 0xFF50 ∉ m.accesses := by
  have hkept : Bus.Invariant fun j : Journal Memory => j.bus.isFlat = false ∧
      (j.bus.bootMapped = true ↔
        m.memory.bootMapped = true ∧ Access.write 0xFF50 ∉ j.accesses) := by
    constructor
    · rintro j a ⟨hj, hmapped⟩
      refine ⟨hj, hmapped.trans ?_⟩
      simp [ByteSource.read]
    · rintro j a v ⟨hj, hmapped⟩
      refine ⟨(j.bus.isFlat_write8 a v).trans hj, ?_⟩
      refine (Memory.bootMapped_write8_iff hj a v).trans ?_
      simp [Bus.write, hmapped, and_assoc]
  have hstep := hkept.machine_step (fun i j hj => hj)
    (fun n j hj => ⟨(j.bus.isFlat_elapse n).trans hj.1, by rw [Memory.elapse_eq]; exact hj.2⟩)
    (m := m) ⟨hmode, by simp⟩
  exact hstep.2

/-- The accesses to memory in an action: those of a step, or the writes of the host. -/
def Action.accesses (m : Machine) : Action → List Access
  | .step => m.accesses
  | .write8 addr _ => [.write addr]
  | .write16 addr _ => [.write addr, .write (addr + 1)]
  | .loadRom _ | .loadBootRom _ | .reset => []

/-- The accesses to memory in the course of some actions, in order. -/
def accessesAll (m : Machine) : List Action → List Access
  | [] => []
  | a :: actions => a.accesses m ++ accessesAll (m.perform a) actions

theorem bootMapped_perform {m : Machine} (hmode : m.memory.isFlat = false) {a : Action}
    (ha : a = .step ∨ a.isWrite = true) :
    (m.perform a).memory.bootMapped = true ↔
      m.memory.bootMapped = true ∧ Access.write 0xFF50 ∉ a.accesses m := by
  cases a with
  | loadRom | loadBootRom | reset => simp [Action.isWrite] at ha
  | step => exact bootMapped_step hmode
  | write8 addr v =>
    refine (Memory.bootMapped_write8_iff hmode addr v).trans ?_
    simp [Action.accesses]
  | write16 addr w =>
    have hfirst : (m.memory.write8 addr (lowByte w)).isFlat = false :=
      (m.memory.isFlat_write8 addr _).trans hmode
    refine (Memory.bootMapped_write8_iff hfirst (addr + 1) (highByte w)).trans ?_
    rw [Memory.bootMapped_write8_iff hmode]
    simp [Action.accesses, and_assoc]

/-- Steps and writes in the usual mode unmap the boot ROM if one of them writes to the lock, and do
not map it. -/
theorem bootMapped_performAll {m : Machine} (hmode : m.memory.isFlat = false)
    {actions : List Action} (hactions : ∀ a ∈ actions, a = .step ∨ a.isWrite = true) :
    (m.performAll actions).memory.bootMapped = true ↔
      m.memory.bootMapped = true ∧ Access.write 0xFF50 ∉ m.accessesAll actions := by
  induction actions generalizing m with
  | nil => simp [performAll, accessesAll]
  | cons a actions ih =>
    obtain ⟨ha, hrest⟩ := List.forall_mem_cons.mp hactions
    have hfirst := bootMapped_perform hmode ha
    have hall : (m.performAll (a :: actions)).memory.bootMapped = true ↔
        (m.perform a).memory.bootMapped = true ∧
          Access.write 0xFF50 ∉ (m.perform a).accessesAll actions :=
      ih ((m.isFlat_perform a).trans hmode) hrest
    rw [hall, hfirst, accessesAll, List.mem_append, not_or, and_assoc]

end Machine

/-- **ROM shows the images that were accepted last, and the lock of the boot ROM is final.** In the
usual mode, whatever was done with a machine, the lower half of the address space shows the image of
the cartridge that was accepted last, and nothing past its end; in the first page it shows the image
of the boot ROM that was accepted last, as long as that is mapped. Steps and writes never map the
boot ROM, and unmap it exactly by a write to the lock. -/
theorem rom_shows_last_images {start : Machine} (hmode : start.memory.isFlat = false)
    (actions : List Machine.Action) :
    (∀ rom, start.last? Machine.acceptedRom? actions = some rom → ∀ a : UInt16, a < 0x8000 →
      ¬ ((start.performAll actions).memory.bootMapped = true ∧ a < 0x0100) →
        (start.performAll actions).memory.read8 a = rom.getD a.toNat 0xFF) ∧
    (∀ boot, start.last? Machine.acceptedBootRom? actions = some boot → ∀ a : UInt16, a < 0x0100 →
      (start.performAll actions).memory.bootMapped = true →
        (start.performAll actions).memory.read8 a = boot.getD a.toNat 0xFF) ∧
    (∀ later : List Machine.Action, (∀ a ∈ later, a = .step ∨ a.isWrite = true) →
      (((start.performAll actions).performAll later).memory.bootMapped = true ↔
        (start.performAll actions).memory.bootMapped = true ∧
          Access.write 0xFF50 ∉ (start.performAll actions).accessesAll later)) := by
  have hmode' : (start.performAll actions).memory.isFlat = false :=
    (start.isFlat_performAll actions).trans hmode
  refine ⟨?_, ?_, fun later hlater => Machine.bootMapped_performAll hmode' hlater⟩
  · intro rom hrom a ha hunmapped
    have hcartridge := start.cartridge_performAll actions
    rw [hrom, Option.elim_some] at hcartridge
    rw [Memory.read8_of_rom hmode' ha, if_neg hunmapped]
    exact read_of_cartridgeOf? hcartridge.symm (UInt16.lt_iff_toNat_lt.mp ha)
  · intro boot hboot a ha hmapped
    have himage := start.boot_performAll actions
    rw [hboot, Option.elim_some] at himage
    rw [Memory.read8_of_rom hmode' (UInt16.lt_trans ha (by decide)), if_pos ⟨hmapped, ha⟩]
    exact read_of_bootImageOf? himage.symm a.toNat

/-- The boot ROM covers the second cartridge, which a write does not change, until it writes to its
lock in two steps. -/
theorem boot_rom_unmaps_itself :
    let boot : Array UInt8 := #[0x3E, 0x01, 0xE0, 0x50]
    let actions : List Machine.Action :=
      [.loadRom #[0x76], .loadBootRom boot, .loadRom #[0x11, 0x22], .write8 0x0001 0x99]
    let later : List Machine.Action := [.step, .step]
    let m := Machine.powerOn.performAll actions
    Machine.powerOn.memory.isFlat = false ∧
      Machine.powerOn.last? Machine.acceptedRom? actions = some #[0x11, 0x22] ∧
      Machine.powerOn.last? Machine.acceptedBootRom? actions = some boot ∧
      m.memory.bootMapped = true ∧ m.memory.read8 0x0001 = 0x01 ∧ m.memory.read8 0x0100 = 0xFF ∧
      (∀ a ∈ later, a = .step ∨ a.isWrite = true) ∧
      Access.write 0xFF50 ∈ m.accessesAll later ∧
      ¬ (m.performAll later).memory.bootMapped = true := by
  intro boot actions later m
  have hrom : Machine.powerOn.last? Machine.acceptedRom? actions = some #[0x11, 0x22] := by
    decide +kernel
  have hboot : Machine.powerOn.last? Machine.acceptedBootRom? actions = some boot := by
    decide +kernel
  have hmapped : m.memory.bootMapped = true := by decide +kernel
  have hlater : ∀ a ∈ later, a = .step ∨ a.isWrite = true := by decide
  have hlock : Access.write 0xFF50 ∈ m.accessesAll later := by decide +kernel
  obtain ⟨hcartridge, hfirst, hlast⟩ :=
    @rom_shows_last_images Machine.powerOn rfl actions
  exact ⟨rfl, hrom, hboot, hmapped, hfirst boot hboot 0x0001 (by decide) hmapped,
    hcartridge _ hrom 0x0100 (by decide) (by decide), hlater, hlock,
    fun hstill => ((hlast later hlater).mp hstill).2 hlock⟩

end Sm83
