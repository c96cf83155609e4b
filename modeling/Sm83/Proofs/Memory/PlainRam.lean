import Mathlib.Data.Set.Basic
import Sm83.Machine
import Sm83.Proofs.Memory.ReadWrite

/-!
# Plain RAM in both modes

Flat mode answers every access from one array, the usual mode from the region that the address
belongs to. On video RAM, work RAM, OAM and high RAM both do the same: a write changes the byte
at its address and no other, and raises no interrupt. So the two modes simulate each other on
these addresses, and a program whose accesses stay there runs alike in both.

The echo of work RAM is left out: a write to it changes another address as well.

## Main definitions

* `plainRam` — the addresses of plain RAM.
* `AgreeOnPlainRam` — a memory in flat mode and one in the usual mode that agree on plain RAM and
  on the pending interrupts.

## Main results

* `Memory.read8_write8_of_isFlat`, `Memory.read8_write8_of_mem_plainRam` — reads after writes in
  either mode.
* `plainRam_simulation` — agreement on plain RAM is a simulation on its addresses.
* `flat_mode_runs_like_usual_mode` — steps that stay in plain RAM do not depend on the mode.
-/

namespace Sm83

/-- The addresses of plain RAM: video RAM, work RAM without its echo, OAM and high RAM. -/
def plainRam : Set UInt16 :=
  {a | 0x8000 ≤ a ∧ a ≤ 0x9FFF ∨ 0xC000 ≤ a ∧ a ≤ 0xDFFF ∨ 0xFE00 ≤ a ∧ a ≤ 0xFE9F ∨
    0xFF80 ≤ a ∧ a ≤ 0xFFFE}

instance : DecidablePred (· ∈ plainRam) := fun a =>
  inferInstanceAs (Decidable (0x8000 ≤ a ∧ a ≤ 0x9FFF ∨ 0xC000 ≤ a ∧ a ≤ 0xDFFF ∨
    0xFE00 ≤ a ∧ a ≤ 0xFE9F ∨ 0xFF80 ≤ a ∧ a ≤ 0xFFFE))

/-! ### Places of plain RAM -/

/-- Whether a region is RAM without effects on anything else. -/
def Region.isRam : Region → Bool
  | vram | wram | oam | hram => true
  | _ => false

/-- An address of plain RAM belongs to a region of RAM. -/
theorem isRam_of_mem_plainRam (bootMapped : Bool) {a : UInt16} (ha : a ∈ plainRam) :
    (locate bootMapped a).region.isRam = true := by
  have haddress := hasAddress_locate bootMapped a
  generalize locate bootMapped a = l at haddress
  obtain ⟨r, o⟩ := l
  have ho := o.isLt
  simp only [plainRam, Set.mem_ofPred_eq, UInt16.le_iff_toNat_le, UInt16.reduceToNat] at ha
  rcases haddress with haddress | ⟨rfl, -⟩
  · cases r with
    | vram | wram | oam | hram => rfl
    | bootRom | rom0 | rom1 | externalRam | unusable | io | ie =>
      simp only [Region.start, Region.size] at haddress ho
      omega
  · rfl

theorem mem_storage_of_mem_plainRam {a : UInt16} (ha : a ∈ plainRam) : a ∈ storage := by
  simp only [plainRam, storage, Set.mem_ofPred_eq] at ha ⊢
  rcases ha with ha | ha | ha | ha
  · exact .inl ha
  · exact .inr (.inl ha)
  · exact .inr (.inr (.inr (.inl ha)))
  · exact .inr (.inr (.inr (.inr (.inl ha))))

/-- A write to plain RAM is seen at its echo alone, which is no plain RAM. -/
theorem not_mem_footprint_of_mem_plainRam {a b : UInt16} (ha : a ∈ plainRam) (hb : b ∈ plainRam) :
    b ∉ footprint a := by
  simp only [plainRam, footprint, Set.mem_ofPred_eq, UInt16.le_iff_toNat_le, ← UInt16.toNat_inj,
    UInt16.toNat_add, UInt16.toNat_sub, UInt16.reduceToNat] at ha hb ⊢
  omega

namespace Memory

variable {m : Memory}

/-- In flat mode a write changes the byte at its address and no other. -/
theorem read8_write8_of_isFlat (h : m.isFlat = true) (a b : UInt16) (v : UInt8) :
    (m.write8 a v).read8 b = if b = a then v else m.read8 b := by
  obtain ⟨ram, hram⟩ := Option.isSome_iff_exists.mp h
  simp [write8, read8, hram, Vector.getElem_set, eq_comm, ← UInt16.toNat_inj]

/-- In flat mode a write raises no interrupt and enables none. -/
theorem pending_write8_of_isFlat (h : m.isFlat = true) (a : UInt16) (v : UInt8) :
    Bus.pending (m.write8 a v) = Bus.pending m := by
  obtain ⟨ram, hram⟩ := Option.isSome_iff_exists.mp h
  simp [write8, hram]

/-- A write to a place of RAM raises no interrupt and enables none. -/
theorem writeLocation_frame (m : Memory) {l : Location} (hl : l.region.isRam = true) (v : UInt8) :
    (m.writeLocation l v).requests = m.requests ∧ (m.writeLocation l v).enables = m.enables := by
  obtain ⟨r, o⟩ := l
  cases r <;> simp only [Region.isRam, Bool.false_eq_true] at hl <;> exact ⟨rfl, rfl⟩

theorem isRam_resolve (m : Memory) {a : UInt16} (ha : a ∈ plainRam) :
    (m.resolve a).region.isRam = true :=
  isRam_of_mem_plainRam m.bootMapped ha

/-- In the usual mode a write to plain RAM changes the byte at its address and no other one of
plain RAM. -/
theorem read8_write8_of_mem_plainRam (h : m.isFlat = false) {a b : UInt16} (ha : a ∈ plainRam)
    (hb : b ∈ plainRam) (v : UInt8) :
    (m.write8 a v).read8 b = if b = a then v else m.read8 b := by
  by_cases hne : b = a
  · rw [if_pos hne, hne, read8_write8_of_mem_storage h (mem_storage_of_mem_plainRam ha)]
  · rw [if_neg hne,
      read8_write8_of_not_mem_footprint h hne (not_mem_footprint_of_mem_plainRam ha hb)]

/-- In the usual mode a write to plain RAM raises no interrupt and enables none. -/
theorem pending_write8_of_mem_plainRam (h : m.isFlat = false) {a : UInt16} (ha : a ∈ plainRam)
    (v : UInt8) : Bus.pending (m.write8 a v) = Bus.pending m := by
  obtain ⟨hrequests, henables⟩ := m.writeLocation_frame (m.isRam_resolve ha) v
  rw [write8_of_not_isFlat h, pending_eq, pending_eq, hrequests, henables]

end Memory

/-! ### The simulation -/

/-- A memory in flat mode and one in the usual mode that hold the same bytes in plain RAM, and in
which the same interrupts are pending. -/
structure AgreeOnPlainRam (flat mapped : Memory) : Prop where
  isFlat_flat : flat.isFlat = true
  isFlat_mapped : mapped.isFlat = false
  read8_eq : ∀ a ∈ plainRam, flat.read8 a = mapped.read8 a
  pending_eq : flat.requests &&& flat.enables &&& 0x1F = mapped.requests &&& mapped.enables &&& 0x1F

/-- The same write to plain RAM keeps the agreement. -/
theorem AgreeOnPlainRam.write8 {flat mapped : Memory} (h : AgreeOnPlainRam flat mapped)
    {a : UInt16} (ha : a ∈ plainRam) (v : UInt8) :
    AgreeOnPlainRam (flat.write8 a v) (mapped.write8 a v) where
  isFlat_flat := (flat.isFlat_write8 a v).trans h.isFlat_flat
  isFlat_mapped := (mapped.isFlat_write8 a v).trans h.isFlat_mapped
  read8_eq b hb := by
    rw [Memory.read8_write8_of_isFlat h.isFlat_flat,
      Memory.read8_write8_of_mem_plainRam h.isFlat_mapped ha hb, h.read8_eq b hb]
  pending_eq := by
    have hflat := Memory.pending_write8_of_isFlat h.isFlat_flat a v
    have hmapped := Memory.pending_write8_of_mem_plainRam h.isFlat_mapped ha v
    exact hflat.trans (h.pending_eq.trans hmapped.symm)

/-- Agreement on plain RAM is a simulation on its addresses. -/
theorem plainRam_simulation : Bus.Simulation plainRam AgreeOnPlainRam where
  read_eq h ha := h.read8_eq _ ha
  read h _ := h
  write v h ha := h.write8 ha v
  pending_eq h := h.pending_eq

/-- **Flat mode runs like the usual mode.** Let a memory in flat mode and one in the usual mode
agree on plain RAM and on the pending interrupts. A step of any processor that fetches, reads and
writes plain RAM only, as its journal on either memory tells, has the same result on both, leaves
the same processor, and memories that agree again. The same holds of any number of steps. -/
theorem flat_mode_runs_like_usual_mode {flat mapped : Memory} (h : AgreeOnPlainRam flat mapped)
    (c : Cpu) :
    (Within plainRam (c.step ({ bus := flat } : Journal Memory)).2.2.accesses ∨
        Within plainRam (c.step ({ bus := mapped } : Journal Memory)).2.2.accesses →
      (c.step flat).1 = (c.step mapped).1 ∧ (c.step flat).2.1 = (c.step mapped).2.1 ∧
        AgreeOnPlainRam (c.step flat).2.2 (c.step mapped).2.2) ∧
    (∀ n, Within plainRam (c.steps n ({ bus := flat } : Journal Memory)).2.2.accesses ∨
        Within plainRam (c.steps n ({ bus := mapped } : Journal Memory)).2.2.accesses →
      (c.steps n flat).1 = (c.steps n mapped).1 ∧ (c.steps n flat).2.1 = (c.steps n mapped).2.1 ∧
        AgreeOnPlainRam (c.steps n flat).2.2 (c.steps n mapped).2.2) := by
  constructor
  · intro hs
    simp only [Cpu.step_journal, List.nil_append] at hs
    exact plainRam_simulation.step_of_within_or h hs
  · intro n hs
    simp only [Cpu.steps_journal, List.nil_append] at hs
    exact plainRam_simulation.steps_of_within_or n h hs

/-! ### A program in plain RAM -/

theorem Memory.readLocation_powerOn {l : Location} (hl : l.region.isRam = true) :
    ({} : Memory).readLocation l = 0 := by
  obtain ⟨r, o⟩ := l
  cases r <;> simp only [Region.isRam, Bool.false_eq_true] at hl <;> simp [readLocation]

/-- At power-on the two modes agree. -/
theorem agreeOnPlainRam_powerOn : AgreeOnPlainRam .emptyFlat {} where
  isFlat_flat := rfl
  isFlat_mapped := rfl
  read8_eq a ha := by
    have hflat : Memory.emptyFlat.read8 a = 0 := by simp [Memory.emptyFlat, Memory.read8]
    rw [hflat, Memory.read8_of_not_isFlat (m := {}) rfl,
      Memory.readLocation_powerOn (Memory.isRam_resolve _ ha)]
  pending_eq := rfl

/-- The instruction `PUSH BC` at the start of work RAM, with the stack at its end, does the same
in both modes. -/
theorem push_runs_alike_in_both_modes :
    let flat := Memory.emptyFlat.write8 0xC000 0xC5
    let mapped := ({} : Memory).write8 0xC000 0xC5
    let c : Cpu := { regs := { pc := 0xC000, sp := 0xDFFE } }
    AgreeOnPlainRam flat mapped ∧
      Within plainRam (c.step ({ bus := flat } : Journal Memory)).2.2.accesses ∧
      (c.step flat).1 = (c.step mapped).1 ∧ (c.step flat).2.1 = (c.step mapped).2.1 ∧
        AgreeOnPlainRam (c.step flat).2.2 (c.step mapped).2.2 := by
  intro flat mapped c
  have hagree : AgreeOnPlainRam flat mapped :=
    agreeOnPlainRam_powerOn.write8 (by decide) 0xC5
  have hopcode : (ByteSource.read c.regs.pc flat).1 = 0xC5 := by
    simp only [flat, c, Memory.read_eq, Memory.read8_write8_of_isFlat (m := .emptyFlat) rfl,
      if_true]
  have hfetch : fetch c.regs.pc flat = (⟨.push .bc, 1, c.regs.pc + 1⟩, flat) :=
    fetch_of_template_plain (by rw [hopcode]; rfl)
  have hup : c.upcoming? flat = some (.push .bc) := by
    rw [Cpu.upcoming?_of_awake rfl rfl, hfetch]
  have haccesses : c.accesses flat = [.read 0xC000, .write 0xDFFD, .write 0xDFFC] := by
    simp only [Cpu.accesses, hup, Cpu.fetched, hfetch]
    decide
  have hs : Within plainRam (c.step ({ bus := flat } : Journal Memory)).2.2.accesses := by
    rw [Cpu.step_journal, haccesses]
    simp only [List.nil_append, within_cons, Access.address]
    exact ⟨by decide, by decide, by decide, by simp [Within]⟩
  exact ⟨hagree, hs, (flat_mode_runs_like_usual_mode hagree c).1 (.inl hs)⟩

end Sm83
