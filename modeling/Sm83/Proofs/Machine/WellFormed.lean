import Sm83.Proofs.Machine.Reset
import Sm83.Proofs.Memory.Bounds
import Sm83.Proofs.Timer.Signal

/-!
# Machines are well-formed

Whatever the host does with a new machine, also by actions that fail, some parts of its state never
take values that their types would allow. The registers of the devices keep the bits that they do
not have clear, the latch of the timer is the present level of its signal, no transfer on the
serial link is under way, `LY` stands still, and a boot ROM that is mapped has bytes. These facts
need one another: what a write leaves of the requests depends on the timer and on the serial link,
and a reset maps the boot ROM again.

## Main definitions

* `Memory.WellFormed` — the facts about the memory.

## Main results

* `Memory.WellFormed.write8`, `Memory.WellFormed.elapse` — accesses and clocks keep them.
* `Machine.wellFormed_step`, `Machine.wellFormed_perform` — steps and actions of the host keep them.
* `reachable_machine_is_well_formed` — every machine that is reached has them, and no access to it
  misses a store.
-/

namespace Sm83

/-! ### Requests -/

namespace Interrupt

/-- A request sets no bit outside of those of the interrupts. -/
theorem request_and_unused (i : Interrupt) (raised : Bool) {requests : UInt8}
    (h : requests &&& 0xE0 = 0) : i.request raised requests &&& 0xE0 = 0 := by
  cases raised with
  | false => exact h
  | true =>
    have hmask : i.mask.toNat &&& (0xE0 : UInt8).toNat = 0 := by cases i <;> rfl
    have hrequests := congrArg UInt8.toNat h
    rw [UInt8.toNat_and] at hrequests
    apply UInt8.toNat_inj.mp
    rw [toNat_request_and, hrequests, hmask]
    rfl

theorem clear_and_unused (i : Interrupt) {requests : UInt8} (h : requests &&& 0xE0 = 0) :
    i.clear requests &&& 0xE0 = 0 := by
  rw [clear, UInt8.and_assoc, UInt8.and_comm (~~~i.mask), ← UInt8.and_assoc, h, UInt8.zero_and]

theorem allMask_and_unused (v : UInt8) : v &&& allMask &&& 0xE0 = 0 := by
  have hmask : allMask &&& 0xE0 = 0 := by decide
  rw [UInt8.and_assoc, hmask, UInt8.and_zero]

end Interrupt

/-! ### The serial link -/

namespace Serial

theorem starts_initial : starts ({} : Serial).sc = false := by
  decide

/-- No control byte that a write leaves asks for a transfer on the machine's own clock: such a
transfer has ended. -/
theorem starts_writeAt {s : Serial} (h : starts s.sc = false) (a : UInt16) (v : UInt8) :
    starts (s.writeAt a v).2.sc = false := by
  unfold writeAt
  split
  · rename_i r _
    cases r with
    | sb => exact h
    | sc =>
      unfold write
      by_cases hstarts : starts v = true
      · simp only [hstarts, if_true]
        have hlow : v &&& 0x7F &&& 0x81 = v &&& 0x01 := UInt8.and_assoc _ _ _
        have hle : (v &&& 0x01).toNat ≤ 1 := by
          rw [UInt8.toNat_and]
          exact Nat.and_le_right
        rw [starts, hlow, beq_eq_false_iff_ne]
        intro hboth
        rw [hboth] at hle
        exact absurd hle (by decide)
      · simp only [hstarts, Bool.false_eq_true, if_false]
  · exact h

end Serial

/-! ### The memory -/

namespace Memory

theorem ioInitial_ly : ioInitial[0x44] = 0 := by
  decide

/-- `LY` cannot be written. -/
theorem ly_write8 (m : Memory) (a : UInt16) (v : UInt8) :
    (m.write8 a v).io[0x44] = m.io[0x44] := by
  cases hmode : m.isFlat with
  | true =>
    obtain ⟨ram, hram⟩ := Option.isSome_iff_exists.mp hmode
    simp only [write8, hram]
  | false =>
    rw [write8_of_not_isFlat hmode]
    obtain ⟨r, o⟩ := m.resolve a
    cases r with
    | io =>
      obtain ⟨oam, -, hwrite⟩ := m.writeIo_eq o v
      change (m.writeIo o v).io[0x44] = m.io[0x44]
      rw [hwrite]
      by_cases ho : o = 0x44
      · subst ho
        rw [ioWritten_of_ioWritable_eq_zero rfl]
        exact Vector.getElem_set_self _
      · exact Vector.getElem_set_ne o.isLt _ fun h => ho (Fin.ext h)
    | _ => rfl

/-- What always holds of the memory of a machine. -/
structure WellFormed (m : Memory) : Prop where
  requests_and : m.requests &&& 0xE0 = 0
  timer : m.timer.WellFormed
  starts_sc : Serial.starts m.serial.sc = false
  ly_eq : m.io[0x44] = 0
  isEmpty_boot : m.bootMapped = true → m.boot.isEmpty = false

variable {m : Memory}

/-- Writes keep the memory well-formed. -/
theorem WellFormed.write8 (h : m.WellFormed) (a : UInt16) (v : UInt8) :
    (m.write8 a v).WellFormed := by
  have hly : (m.write8 a v).io[0x44] = 0 := (m.ly_write8 a v).trans h.ly_eq
  cases hmode : m.isFlat with
  | true =>
    obtain ⟨ram, hram⟩ := Option.isSome_iff_exists.mp hmode
    have hwrite : m.write8 a v = { m with flat := some (ram.set a.toFin v) } := by
      simp only [Memory.write8, hram]
    rw [hwrite]
    exact ⟨h.requests_and, h.timer, h.starts_sc, h.ly_eq, h.isEmpty_boot⟩
  | false =>
    have hown : (if a = 0xFF0F then v &&& Interrupt.allMask else m.requests) &&& 0xE0 = 0 := by
      split_ifs
      · exact Interrupt.allMask_and_unused v
      · exact h.requests_and
    obtain ⟨_, _, _, _, io, _, hwrite⟩ := write8_eq hmode a v
    rw [hwrite] at hly ⊢
    refine ⟨?_, h.timer.writeAt a v, Serial.starts_writeAt h.starts_sc a v, hly, fun hmapped => ?_⟩
    · exact Interrupt.request_and_unused _ _ (Interrupt.request_and_unused _ _ hown)
    · exact h.isEmpty_boot (Bool.and_eq_true_iff.mp hmapped).1

/-- Time keeps the memory well-formed. -/
theorem WellFormed.elapse (h : m.WellFormed) (n : Nat) : (m.elapse n).WellFormed := by
  cases hmode : m.isFlat with
  | true =>
    rw [elapse_of_isFlat hmode]
    exact h
  | false =>
    rw [elapse_of_not_isFlat hmode]
    exact ⟨Interrupt.request_and_unused _ _ h.requests_and, h.timer.advance n, h.starts_sc, h.ly_eq,
      h.isEmpty_boot⟩

theorem WellFormed.acknowledge (h : m.WellFormed) (i : Interrupt) :
    (Bus.acknowledge i m).WellFormed :=
  ⟨i.clear_and_unused h.requests_and, h.timer, h.starts_sc, h.ly_eq, h.isEmpty_boot⟩

theorem WellFormed.insert (h : m.WellFormed) (cartridge : Cartridge) :
    (m.insert cartridge).WellFormed :=
  ⟨h.requests_and, h.timer, h.starts_sc, h.ly_eq, h.isEmpty_boot⟩

end Memory

/-! ### Machines -/

/-- The memory of an initial machine is well-formed, whatever its images are. -/
theorem Setup.wellFormed_initial (s : Setup) : s.initial.memory.WellFormed where
  requests_and := show (0x01 : UInt8) &&& 0xE0 = 0 by decide
  timer := Timer.wellFormed_default
  starts_sc := Serial.starts_initial
  ly_eq := Memory.ioInitial_ly
  isEmpty_boot hmapped := Bool.not_eq_eq_eq_not.mp hmapped

namespace Machine

variable {m : Machine}

/-- Steps keep the memory well-formed, also steps that fail. -/
theorem wellFormed_step (h : m.memory.WellFormed) : m.step.2.memory.WellFormed := by
  have hkept : Bus.Invariant fun j : Journal Memory => j.bus.WellFormed :=
    ⟨fun _ hj => hj, fun a v hj => hj.write8 a v⟩
  exact hkept.machine_step (fun i _ hj => hj.acknowledge i) (fun n _ hj => hj.elapse n) h

/-- Actions of the host keep the memory well-formed. -/
theorem wellFormed_perform (h : m.memory.WellFormed) (a : Action) :
    (m.perform a).memory.WellFormed := by
  cases a with
  | loadRom bytes =>
    rcases m.perform_loadRom bytes with hm | ⟨cartridge, hm⟩
    · rw [hm]
      exact h
    · rw [hm]
      exact h.insert cartridge
  | loadBootRom bytes =>
    rw [perform, loadBootRom, Memory.loadBootRom]
    cases himage : bootImageOf? bytes with
    | error e => exact h
    | ok image =>
      exact ⟨h.requests_and, h.timer, h.starts_sc, h.ly_eq,
        fun _ => isEmpty_eq_false_of_bootImageOf? himage⟩
  | step => exact wellFormed_step h
  | reset =>
    rw [perform, reset_eq]
    exact Setup.wellFormed_initial _
  | write8 addr v => exact h.write8 addr v
  | write16 addr w => exact (h.write8 addr (lowByte w)).write8 (addr + 1) (highByte w)

end Machine

/-- **Reachable machines are well-formed.** Whatever is done with a new machine, by actions that
succeed or fail: the lower half of `F` is zero; `IF` and `TAC` have no bits but their five and
three; the latch of the timer is the selected bit of the divider, gated by the enable bit; `SC` asks
for no transfer on the machine's own clock; `LY` is zero; and the stores have their sizes, with a
boot ROM of at most a page that has bytes when it is mapped. So no access to any address, no
transfer to OAM and no slice of a store misses a byte. -/
theorem reachable_machine_is_well_formed {start : Machine} (hnew : start.IsNew)
    (actions : List Machine.Action) :
    let m := (start.performAll actions).memory
    let t := m.timer
    ((start.performAll actions).cpu.regs.f &&& 0x0F = 0) ∧
    (m.requests &&& 0xE0 = 0) ∧
    (t.tac ≤ 7 ∧
      t.latch = (t.tac.toNat.testBit 2 && t.div.toNat.testBit (Timer.selectedBit t.tac))) ∧
    (m.serial.sc &&& 0x81 ≠ 0x81) ∧
    (m.io[0x44] = 0) ∧
    (m.rom.size = 0x8000 ∧ m.vram.toArray.size = 0x2000 ∧ m.wram.toArray.size = 0x2000 ∧
      ∀ ram, m.flat = some ram → ram.toArray.size = 0x10000) ∧
    (m.boot.bytes.size ≤ 0x100 ∧ (m.bootMapped = true → m.boot.bytes ≠ #[])) ∧
    (∀ addr v page, m.checkedRead8 addr = some (m.read8 addr) ∧
      m.checkedWrite8 addr v = some (m.write8 addr v) ∧
      m.checkedBacking addr = some (m.backing? addr) ∧
      m.checkedCopyToOam page = some (m.copyToOam page)) := by
  intro m t
  have hstart : start.memory.WellFormed := by
    rw [hnew.eq_initial]
    exact Setup.wellFormed_initial _
  have h : m.WellFormed :=
    Machine.performAll_induction (P := fun m : Machine => m.memory.WellFormed) hstart
      fun _ hm a _ => Machine.wellFormed_perform hm a
  refine ⟨Flags.toByte_and_low _, h.requests_and, ⟨h.timer.tac_le, ?_⟩, ?_, h.ly_eq, ?_, ?_, ?_⟩
  · rw [← Timer.signal_eq_testBit]
    exact h.timer.latch_eq
  · exact beq_eq_false_iff_ne.mp h.starts_sc
  · exact ⟨m.size_rom, m.vram.size_toArray, m.wram.size_toArray, fun ram _ => ram.size_toArray⟩
  · refine ⟨m.boot.size_le, fun hmapped hempty => ?_⟩
    have hbytes := h.isEmpty_boot hmapped
    rw [Image.isEmpty, hempty] at hbytes
    cases hbytes
  · exact fun addr v page => ⟨m.checkedRead8_eq addr, m.checkedWrite8_eq addr v,
      m.checkedBacking_eq addr, m.checkedCopyToOam_eq page⟩

/-- All ones are written to the registers of the devices, an image is refused, and after a reset the
boot ROM is mapped again, of which the second byte is missing. -/
theorem well_formed_after_reset :
    let actions : List Machine.Action :=
      [.loadRom #[], .loadBootRom #[0x76], .write8 0xFF07 0xFF, .write8 0xFF0F 0xFF,
        .write8 0xFF02 0xFF, .write8 0xFF44 0xFF, .write8 0xFF50 0x01, .step]
    let m := (Machine.powerOn.performAll actions).memory
    let m' := (Machine.powerOn.performAll (actions ++ [.reset])).memory
    Machine.powerOn.IsNew ∧
      (m.requests &&& 0xE0 = 0 ∧ m.timer.tac ≤ 7 ∧ m.serial.sc &&& 0x81 ≠ 0x81 ∧ m.io[0x44] = 0) ∧
      m'.bootMapped = true ∧ m'.boot.bytes ≠ #[] ∧
        m'.checkedRead8 0x0001 = some (m'.read8 0x0001) := by
  intro actions m m'
  have hnew : Machine.powerOn.IsNew := .inl rfl
  have h := reachable_machine_is_well_formed hnew actions
  have h' := reachable_machine_is_well_formed hnew (actions ++ [.reset])
  have hmapped : m'.bootMapped = true := by decide +kernel
  exact ⟨hnew, ⟨h.2.1, h.2.2.1.1, h.2.2.2.1, h.2.2.2.2.1⟩, hmapped, h'.2.2.2.2.2.2.1.2 hmapped,
    (h'.2.2.2.2.2.2.2 0x0001 0x00 0x00).1⟩

end Sm83
