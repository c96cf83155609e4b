import Sm83.Proofs.Memory.Places

/-!
# Words on the stack

A word is pushed to the two cells below the stack pointer, and taken from the two cells at it. So a
word that was pushed is taken back, as long as these cells hold what is stored in them and are left
alone in between.

Which other bytes a push changes depends on the mode. In flat mode there are none; in the usual mode
these are the footprints of the two cells.

## Main definitions

* `Memory.reach` — the addresses at which a write to an address can be seen.
* `Memory.AgreeOutside` — two memories that differ at most where writes to some addresses are seen.
* `below` — the cells of the words below the stack pointer.

## Main results

* `Memory.read8_write8_of_notMem_reach` — a write is seen within its reach only, in either mode.
* `Core.pop_eq` — what is taken from the stack.
* `Core.agreeOutside_push`, `Core.read16_push` — what a push changes, and where its word is found.
-/

namespace Sm83

namespace Memory

/-! ### The reach of a write -/

/-- The addresses at which a write to an address can be seen: the address itself and, in the usual
mode, its footprint. -/
def reach (m : Memory) (a : UInt16) : Set UInt16 :=
  {b | b = a ∨ m.isFlat = false ∧ b ∈ footprint a}

theorem reach_congr {m m' : Memory} (h : m'.isFlat = m.isFlat) (a : UInt16) :
    m'.reach a = m.reach a := by
  simp only [reach, h]

/-- A write is seen within its reach only. -/
theorem read8_write8_of_notMem_reach {m : Memory} {a b : UInt16} (h : b ∉ m.reach a) (v : UInt8) :
    (m.write8 a v).read8 b = m.read8 b := by
  simp only [reach, Set.mem_ofPred_eq, not_or, not_and] at h
  obtain ⟨hne, hfoot⟩ := h
  cases hmode : m.isFlat with
  | true => rw [read8_write8_of_isFlat hmode, if_neg hne]
  | false => exact read8_write8_of_not_mem_footprint hmode hne (hfoot hmode) v

/-- A write to a cell that holds what is stored there is not seen in the cell behind it. -/
theorem add_one_notMem_reach {m : Memory} {a : UInt16} (ha : (BytePlace.cell a).Holds m) :
    a + 1 ∉ m.reach a := by
  rintro (heq | ⟨hmode, hfoot⟩)
  · exact ne_add_one a heq.symm
  · have hstorage : a ∈ storage := ha.resolve_left (by simp [hmode])
    have hbound := a.toNat_lt
    simp only [storage, footprint, Set.mem_ofPred_eq, UInt16.le_iff_toNat_le, ← UInt16.toNat_inj,
      UInt16.reduceToNat, UInt16.toNat_add, UInt16.toNat_sub] at hstorage hfoot
    omega

/-- Two memories of one mode that show the same bytes, but where writes to some addresses are
seen. -/
structure AgreeOutside (W : Set UInt16) (m m' : Memory) : Prop where
  isFlat_eq : m'.isFlat = m.isFlat
  read8_eq : ∀ a, (∀ b ∈ W, a ∉ m.reach b) → m'.read8 a = m.read8 a

namespace AgreeOutside

variable {W W' : Set UInt16} {m m' m'' : Memory}

theorem refl (W : Set UInt16) (m : Memory) : AgreeOutside W m m :=
  ⟨rfl, fun _ _ => rfl⟩

theorem mono (h : AgreeOutside W m m') (hW : W ⊆ W') : AgreeOutside W' m m' :=
  ⟨h.isFlat_eq, fun a ha => h.read8_eq a fun b hb => ha b (hW hb)⟩

theorem trans (h : AgreeOutside W m m') (h' : AgreeOutside W m' m'') : AgreeOutside W m m'' where
  isFlat_eq := h'.isFlat_eq.trans h.isFlat_eq
  read8_eq a ha := by
    have ha' : ∀ b ∈ W, a ∉ m'.reach b := fun b hb => reach_congr h.isFlat_eq b ▸ ha b hb
    exact (h'.read8_eq a ha').trans (h.read8_eq a ha)

theorem write8 (m : Memory) {a : UInt16} (ha : a ∈ W) (v : UInt8) :
    AgreeOutside W m (m.write8 a v) :=
  ⟨m.isFlat_write8 a v, fun _ hb => read8_write8_of_notMem_reach (hb a ha) v⟩

end AgreeOutside

end Memory

/-! ### The cells below the stack pointer -/

/-- The `2 * n` cells below an address, modulo `2 ^ 16`. -/
def below (sp : UInt16) (n : Nat) : Set UInt16 :=
  {a | (sp - 1 - a).toNat < 2 * n}

instance (sp : UInt16) (n : Nat) : DecidablePred (· ∈ below sp n) := fun a =>
  inferInstanceAs (Decidable ((sp - 1 - a).toNat < 2 * n))

theorem mem_below_iff {sp a : UInt16} {n : Nat} : a ∈ below sp n ↔ (sp - 1 - a).toNat < 2 * n :=
  Iff.rfl

theorem below_one (sp : UInt16) : below sp 1 = {sp - 1, sp - 2} := by
  ext a
  have ha := a.toNat_lt
  have hsp := sp.toNat_lt
  simp only [mem_below_iff, Set.mem_insert_iff, Set.mem_singleton_iff, ← UInt16.toNat_inj,
    UInt16.toNat_sub, UInt16.reduceToNat]
  omega

/-! ### Pushing and taking a word -/

theorem sub_one_sub_one (sp : UInt16) : sp - 1 - 1 = sp - 2 := by
  grind

theorem sub_two_add_one (sp : UInt16) : sp - 2 + 1 = sp - 1 := by
  grind

/-- The word in the two cells below an address. -/
theorem Memory.read16_sub_two (m : Memory) (sp : UInt16) :
    m.read16 (sp - 2) = word (m.read8 (sp - 1)) (m.read8 (sp - 2)) := by
  rw [read16, sub_two_add_one]

namespace Core

variable (s : Core Memory) (w : UInt16)

/-- A word is taken from the two cells at the stack pointer, which moves behind them. Memory is left
alone. -/
theorem pop_eq :
    s.pop =
      (s.bus.read16 s.regs.sp, { s with regs := { s.regs with sp := s.regs.sp + 2 } }) := by
  have hsp : s.regs.sp + 1 + 1 = s.regs.sp + 2 := by grind
  simp only [pop, readAt, modifyRegs, Memory.read_eq, Memory.read16, hsp]

/-- A word is pushed to the two cells below the stack pointer, which moves to the lower one. -/
theorem push_eq :
    s.push w =
      ⟨{ s.regs with sp := s.regs.sp - 2 },
        (s.bus.write8 (s.regs.sp - 1) (highByte w)).write8 (s.regs.sp - 2) (lowByte w)⟩ := by
  simp only [push, writeAt, modifyRegs, Memory.write_eq, sub_one_sub_one]

/-- A return continues at the word at the stack pointer. -/
theorem ret_eq :
    s.ret = ⟨{ s.regs with sp := s.regs.sp + 2, pc := s.bus.read16 s.regs.sp }, s.bus⟩ := by
  simp only [ret, pop_eq, jump, modifyRegs]

/-- A call pushes the program counter. -/
theorem call_eq (target : UInt16) :
    s.call target =
      ⟨{ s.regs with sp := s.regs.sp - 2, pc := target }, (s.push s.regs.pc).bus⟩ := by
  simp only [call, push_eq, jump, modifyRegs]

/-- A push is seen within the reach of its two cells only. -/
theorem agreeOutside_push :
    Memory.AgreeOutside (below s.regs.sp 1) s.bus (s.push w).bus := by
  rw [push_eq, below_one]
  exact (Memory.AgreeOutside.write8 s.bus (.inl rfl) _).trans (.write8 _ (.inr rfl) _)

/-- What was pushed is found at the stack pointer, if the two cells hold what is stored in them. -/
theorem read16_push (hhigh : (BytePlace.cell (s.regs.sp - 1)).Holds s.bus)
    (hlow : (BytePlace.cell (s.regs.sp - 2)).Holds s.bus) :
    (s.push w).bus.read16 (s.regs.sp - 2) = w := by
  have hstored := Memory.read8_write8_self_of_holds hhigh (highByte w)
  have hlow' := hlow.congr (s.bus.isFlat_write8 (s.regs.sp - 1) (highByte w))
  have hkept := Memory.add_one_notMem_reach hlow'
  rw [sub_two_add_one] at hkept
  rw [push_eq, Memory.read16_sub_two, Memory.read8_write8_of_notMem_reach hkept, hstored,
    Memory.read8_write8_self_of_holds hlow', word_highByte_lowByte]

end Core

end Sm83
