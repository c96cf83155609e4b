import Mathlib.Tactic.SplitIfs
import Sm83.Memory.Basic
import Sm83.Proofs.Bus.Invariant
import Sm83.Proofs.Memory.AddressMap

/-!
# The devices behind the memory

In the usual mode every device sees every write to memory and answers to its own addresses only; in
flat mode none does. So what a write leaves of the timer, of the serial link, of the requests of
interrupts and of the lock of the boot ROM is known from the address and the byte alone, and the
images that are loaded are never written.

## Main results

* `Memory.copyToOam_eq` — a transfer to OAM changes nothing else.
* `Memory.writeIo_eq`, `Memory.write8_eq` — the devices after a write.
* `Memory.isFlat_write8` — writes do not change the mode.
* `Memory.timer_write8`, `Memory.serial_write8`, `Memory.requests_write8`,
  `Memory.bootMapped_write8` — single devices after a write.
* `Memory.isFlat_frame`, `Memory.div_frame` — what these mean for steps of the processor.
-/

namespace Sm83

/-! ### The registers of the devices -/

/-- The register of the serial link that a register of the I/O page is. -/
def IoRegister.serial? : IoRegister → Option Serial.Register
  | serial r => some r
  | _ => none

/-- The register of the timer that a register of the I/O page is. -/
def IoRegister.timer? : IoRegister → Option Timer.Register
  | timer r => some r
  | _ => none

theorem serial?_ioRegister (o : Fin 0x80) :
    (ioRegister o).serial? = Serial.Register.ofAddress? (ioAddress o) := by
  revert o
  decide +kernel

theorem timer?_ioRegister (o : Fin 0x80) :
    (ioRegister o).timer? = Timer.Register.ofAddress? (ioAddress o) := by
  revert o
  decide +kernel

theorem ioRegister_eq_requests_iff (o : Fin 0x80) :
    ioRegister o = .requests ↔ ioAddress o = 0xFF0F := by
  revert o
  decide +kernel

theorem ioRegister_eq_dma_iff (o : Fin 0x80) : ioRegister o = .dma ↔ ioAddress o = 0xFF46 := by
  revert o
  decide +kernel

theorem ioRegister_eq_lockout_iff (o : Fin 0x80) :
    ioRegister o = .lockout ↔ ioAddress o = 0xFF50 := by
  revert o
  decide +kernel

/-- Of the registers that are not mere cells, the page of transfers to OAM alone is kept in one. -/
theorem ioWritable_of_ne_cell {o : Fin 0x80} (h : ioRegister o ≠ .cell) :
    ioWritable o = if ioRegister o = .dma then 0xFF else 0x00 := by
  revert o
  decide +kernel

theorem Serial.Register.ofAddress?_eq_none {a : UInt16}
    (ha : ¬ (0xFF00 ≤ a.toNat ∧ a.toNat < 0xFF80)) : ofAddress? a = none := by
  unfold ofAddress?
  split
  case h_3 => rfl
  all_goals exact absurd (by decide) ha

theorem Timer.Register.ofAddress?_eq_none {a : UInt16}
    (ha : ¬ (0xFF00 ≤ a.toNat ∧ a.toNat < 0xFF80)) : ofAddress? a = none := by
  unfold ofAddress?
  split
  case h_5 => rfl
  all_goals exact absurd (by decide) ha

theorem ioWritten_of_ioWritable_eq_zero {o : Fin 0x80} (h : ioWritable o = 0x00)
    (content v : UInt8) : ioWritten o content v = content := by
  simp [ioWritten, h]

theorem ioWritten_of_ioWritable_eq_allOnes {o : Fin 0x80} (h : ioWritable o = 0xFF)
    (content v : UInt8) : ioWritten o content v = v := by
  have hones : (0xFF : UInt8) = -1 := rfl
  simp [ioWritten, h, hones]

namespace Memory

/-! ### Writes -/

/-- A transfer to OAM changes nothing else. -/
theorem copyToOam_eq (m : Memory) (page : UInt8) :
    ∃ oam, m.copyToOam page = { m with oam := oam } := by
  rw [copyToOam, Fin.foldl_eq_finRange_foldl]
  refine List.foldlRecOn (motive := fun m' : Memory => ∃ oam, m' = { m with oam := oam })
    _ _ ⟨m.oam, rfl⟩ ?_
  rintro _ ⟨oam, rfl⟩ i -
  exact ⟨_, rfl⟩

/-- The I/O page after a write to it: every device answers to its own addresses, the cell of the
register takes what can be written to it, and only a transfer changes OAM. -/
theorem writeIo_eq (m : Memory) (o : Fin 0x80) (v : UInt8) :
    ∃ oam, (ioAddress o ≠ 0xFF46 → oam = m.oam) ∧ m.writeIo o v = { m with
      oam := oam
      bootMapped := m.bootMapped && decide (ioAddress o ≠ 0xFF50)
      io := m.io.set o (ioWritten o (m.io.get o) v)
      requests := Interrupt.timer.request (m.timer.writeAt (ioAddress o) v).1
        (Interrupt.serial.request (m.serial.writeAt (ioAddress o) v).1
          (if ioAddress o = 0xFF0F then v &&& Interrupt.allMask else m.requests))
      timer := (m.timer.writeAt (ioAddress o) v).2
      serial := (m.serial.writeAt (ioAddress o) v).2 } := by
  simp only [Serial.writeAt, Timer.writeAt, ← serial?_ioRegister, ← timer?_ioRegister, Ne,
    ← ioRegister_eq_requests_iff, ← ioRegister_eq_dma_iff, ← ioRegister_eq_lockout_iff]
  cases hr : ioRegister o with
  | cell =>
    exact ⟨m.oam, by simp [writeIo, hr, IoRegister.serial?, IoRegister.timer?, Interrupt.request]⟩
  | dma =>
    have hwritable : ioWritable o = 0xFF := by
      rw [ioWritable_of_ne_cell (by simp [hr]), if_pos hr]
    obtain ⟨oam, hcopy⟩ := copyToOam_eq { m with io := m.io.set o v } v
    refine ⟨oam, ?_⟩
    simp [writeIo, hr, IoRegister.serial?, IoRegister.timer?, Interrupt.request, hcopy,
      ioWritten_of_ioWritable_eq_allOnes hwritable]
  | serial r | timer r | requests | lockout =>
    have hwritable : ioWritable o = 0x00 := by
      rw [ioWritable_of_ne_cell (by simp [hr]), if_neg (by simp [hr])]
    have hcell : m.io.set o (ioWritten o (m.io.get o) v) = m.io := by
      rw [ioWritten_of_ioWritable_eq_zero hwritable]
      exact Vector.set_getElem_self _
    refine ⟨m.oam, ?_⟩
    rw [hcell]
    simp [writeIo, hr, IoRegister.serial?, IoRegister.timer?, Interrupt.request]

theorem flat_of_not_isFlat {m : Memory} (hmode : m.isFlat = false) : m.flat = none :=
  Option.isNone_iff_eq_none.mp (Option.isSome_eq_false_iff.mp hmode)

theorem read8_of_not_isFlat {m : Memory} (hmode : m.isFlat = false) (a : UInt16) :
    m.read8 a = m.readLocation (m.resolve a) := by
  simp only [read8, flat_of_not_isFlat hmode]

theorem write8_of_not_isFlat {m : Memory} (hmode : m.isFlat = false) (a : UInt16) (v : UInt8) :
    m.write8 a v = m.writeLocation (m.resolve a) v := by
  simp only [write8, flat_of_not_isFlat hmode]

/-- The devices after a write in the usual mode, and what no write changes: the images and the
mode. -/
theorem write8_eq {m : Memory} (hmode : m.isFlat = false) (a : UInt16) (v : UInt8) :
    ∃ vram wram oam hram io enables, m.write8 a v = { m with
      vram := vram, wram := wram, oam := oam, hram := hram, io := io, enables := enables
      bootMapped := m.bootMapped && decide (a ≠ 0xFF50)
      requests := Interrupt.timer.request (m.timer.writeAt a v).1
        (Interrupt.serial.request (m.serial.writeAt a v).1
          (if a = 0xFF0F then v &&& Interrupt.allMask else m.requests))
      timer := (m.timer.writeAt a v).2
      serial := (m.serial.writeAt a v).2 } := by
  rw [write8_of_not_isFlat hmode]
  by_cases hio : ∃ o, m.resolve a = ⟨.io, o⟩
  · obtain ⟨o, ho⟩ := hio
    obtain ⟨oam, -, hwrite⟩ := m.writeIo_eq o v
    obtain rfl : a = ioAddress o := locate_eq_io_iff.mp ho
    rw [ho]
    exact ⟨_, _, _, _, _, _, hwrite⟩
  · have hbounds : ¬ (0xFF00 ≤ a.toNat ∧ a.toNat < 0xFF80) := fun h =>
      hio ⟨_, locate_of_io m.bootMapped h.1 h.2⟩
    have hrequests : a ≠ 0xFF0F := by
      rintro rfl
      exact hbounds (by decide)
    have hlockout : a ≠ 0xFF50 := by
      rintro rfl
      exact hbounds (by decide)
    simp only [Serial.writeAt, Timer.writeAt, Serial.Register.ofAddress?_eq_none hbounds,
      Timer.Register.ofAddress?_eq_none hbounds, Interrupt.request, if_neg hrequests,
      decide_eq_true hlockout, Bool.and_true, Bool.false_eq_true, if_false]
    unfold writeLocation
    split
    case h_5 o ho => exact absurd ⟨o, ho⟩ hio
    all_goals exact ⟨_, _, _, _, _, _, rfl⟩

/-- Writes do not change the mode. -/
theorem isFlat_write8 (m : Memory) (a : UInt16) (v : UInt8) : (m.write8 a v).isFlat = m.isFlat := by
  cases hmode : m.isFlat with
  | true =>
    obtain ⟨ram, hram⟩ := Option.isSome_iff_exists.mp hmode
    simp only [write8, hram, isFlat, Option.isSome_some]
  | false =>
    obtain ⟨_, _, _, _, _, _, hwrite⟩ := write8_eq hmode a v
    rw [hwrite]
    exact hmode

/-- In the usual mode a write does to the timer what the timer does at its address, and in flat mode
nothing. -/
theorem timer_write8 (m : Memory) (a : UInt16) (v : UInt8) :
    (m.write8 a v).timer = if m.isFlat then m.timer else (m.timer.writeAt a v).2 := by
  cases hmode : m.isFlat with
  | true =>
    obtain ⟨ram, hram⟩ := Option.isSome_iff_exists.mp hmode
    simp only [write8, hram, if_true]
  | false =>
    obtain ⟨_, _, _, _, _, _, hwrite⟩ := write8_eq hmode a v
    rw [hwrite]
    rfl

section UsualMode

variable {m : Memory} (hmode : m.isFlat = false) (a : UInt16) (v : UInt8)

include hmode

theorem serial_write8 : (m.write8 a v).serial = (m.serial.writeAt a v).2 := by
  obtain ⟨_, _, _, _, _, _, hwrite⟩ := write8_eq hmode a v
  rw [hwrite]

/-- The devices add their requests to those before the write; only a write to `IF` itself replaces
them. -/
theorem requests_write8 :
    (m.write8 a v).requests = Interrupt.timer.request (m.timer.writeAt a v).1
      (Interrupt.serial.request (m.serial.writeAt a v).1
        (if a = 0xFF0F then v &&& Interrupt.allMask else m.requests)) := by
  obtain ⟨_, _, _, _, _, _, hwrite⟩ := write8_eq hmode a v
  rw [hwrite]

/-- A write to the lock unmaps the boot ROM, and no write maps it. -/
theorem bootMapped_write8 :
    (m.write8 a v).bootMapped = (m.bootMapped && decide (a ≠ 0xFF50)) := by
  obtain ⟨_, _, _, _, _, _, hwrite⟩ := write8_eq hmode a v
  rw [hwrite]

end UsualMode

end Memory

/-! ### The divider -/

namespace Timer

theorem div_refresh (t : Timer) : t.refresh.2.div = t.div := by
  simp only [refresh, count]
  split_ifs <;> rfl

/-- Only a write to `DIV` changes the divider. -/
theorem div_writeAt {a : UInt16} (ha : a ≠ 0xFF04) (t : Timer) (v : UInt8) :
    (t.writeAt a v).2.div = t.div := by
  unfold writeAt
  split
  case h_2 => rfl
  case h_1 r hr =>
    cases r with
    | div =>
      unfold Register.ofAddress? at hr
      split at hr <;> simp_all
    | tima | tma => rfl
    | tac => exact div_refresh _

end Timer

/-! ### Frames of the processor's steps -/

namespace Memory

/-- Steps do not change the mode. -/
theorem isFlat_frame : Bus.Frame ∅ isFlat where
  read _ _ := rfl
  write _ v m := m.isFlat_write8 _ v

/-- A step that does not write to `DIV` does not change the divider. -/
theorem div_frame : Bus.Frame {0xFF04} fun m : Memory => m.timer.div where
  read _ _ := rfl
  write {a} ha v m := by
    rw [write_eq, timer_write8]
    split_ifs
    · rfl
    · exact Timer.div_writeAt ha m.timer v

end Memory

end Sm83
