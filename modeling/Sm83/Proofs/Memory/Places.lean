import Sm83.Proofs.Memory.PlainRam

/-!
# Places of bytes

A byte of a number is in a register or in a cell of memory. This file says where a byte is held,
what is found there, and which writes change it.

## Main definitions

* `BytePlace`, `Core.look` — a register or a cell, and the byte in it.
* `BytePlace.Holds` — the places that hold what is stored in them.
* `BytePlace.IsPlain` — the places that a write to another such place leaves alone.
* `RegisterFile.place` — the place that an operand stands for.

## Main results

* `Memory.read8_write8_self_of_holds`, `Memory.read8_write8_of_ne` — reads after writes, in either
  mode.
* `Core.look_writeOperand_self`, `Core.look_writeOperand_of_ne` — what is found at plain places
  after a write to an operand.
-/

namespace Sm83

/-- Where a byte can be stored. -/
inductive BytePlace where
  | register (r : Reg8)
  | cell (addr : UInt16)
  deriving DecidableEq, Repr

/-- The byte at a place. -/
def Core.look (s : Core Memory) : BytePlace → UInt8
  | .register r => (s.readOperand r).1
  | .cell addr => s.bus.read8 addr

namespace BytePlace

variable {p : BytePlace} {m m' : Memory}

/-- Whether a place holds what is stored there. In the usual mode not every address does. -/
def Holds (m : Memory) : BytePlace → Prop
  | register _ => True
  | cell addr => m.isFlat = true ∨ addr ∈ storage

/-- Whether a place is a register, or a cell that is a byte of its own: one of plain RAM, or any one
in flat mode. -/
def IsPlain (m : Memory) : BytePlace → Prop
  | register r => r ≠ .atHL
  | cell addr => m.isFlat = true ∨ addr ∈ plainRam

instance (m : Memory) : DecidablePred (IsPlain m)
  | register r => inferInstanceAs (Decidable (r ≠ .atHL))
  | cell addr => inferInstanceAs (Decidable (m.isFlat = true ∨ addr ∈ plainRam))

theorem Holds.congr (h : p.Holds m) (hmode : m'.isFlat = m.isFlat) : p.Holds m' := by
  cases p with
  | register r => trivial
  | cell addr => exact h.imp_left hmode.trans

theorem IsPlain.congr (h : p.IsPlain m) (hmode : m'.isFlat = m.isFlat) : p.IsPlain m' := by
  cases p with
  | register r => exact h
  | cell addr => exact h.imp_left hmode.trans

theorem IsPlain.holds (h : p.IsPlain m) : p.Holds m := by
  cases p with
  | register r => trivial
  | cell addr => exact h.imp_right mem_storage_of_mem_plainRam

end BytePlace

namespace Memory

variable {m : Memory} {a b : UInt16}

theorem read8_write8_self_of_holds (h : (BytePlace.cell a).Holds m) (v : UInt8) :
    (m.write8 a v).read8 a = v := by
  cases hmode : m.isFlat with
  | true => rw [read8_write8_of_isFlat hmode, if_pos rfl]
  | false => exact read8_write8_of_mem_storage hmode (h.resolve_left (by simp [hmode])) v

/-- In either mode a write to a plain cell leaves the other plain cells alone. -/
theorem read8_write8_of_ne (ha : (BytePlace.cell a).IsPlain m) (hb : (BytePlace.cell b).IsPlain m)
    (hne : b ≠ a) (v : UInt8) : (m.write8 a v).read8 b = m.read8 b := by
  cases hmode : m.isFlat with
  | true => rw [read8_write8_of_isFlat hmode, if_neg hne]
  | false =>
    have ha' := ha.resolve_left (by simp [hmode])
    have hb' := hb.resolve_left (by simp [hmode])
    rw [read8_write8_of_mem_plainRam hmode ha' hb', if_neg hne]

end Memory

/-! ### Operands -/

/-- The place that an operand stands for. -/
def RegisterFile.place (r : RegisterFile) : Reg8 → BytePlace
  | .atHL => .cell r.hl
  | reg => .register reg

namespace Core

variable {s : Core Memory} {r : Reg8}

/-- The flags are no place of a byte. -/
theorem look_setFlags (s : Core Memory) (flags : Flags) (p : BytePlace) :
    look { s with regs := { s.regs with flags := flags } } p = s.look p := by
  cases p with
  | register r => cases r <;> rfl
  | cell addr => rfl

/-- What is written to an operand is found at its place. -/
theorem look_writeOperand_self (hr : (s.regs.place r).IsPlain s.bus) (v : UInt8) :
    (s.writeOperand r v).look (s.regs.place r) = v := by
  cases r with
  | atHL => exact Memory.read8_write8_self_of_holds hr.holds v
  | _ => rfl

/-- A write to an operand leaves the other plain places alone. -/
theorem look_writeOperand_of_ne (hr : (s.regs.place r).IsPlain s.bus) {p : BytePlace}
    (hp : p.IsPlain s.bus) (hne : p ≠ s.regs.place r) (v : UInt8) :
    (s.writeOperand r v).look p = s.look p := by
  cases p with
  | cell addr =>
    cases r with
    | atHL => exact Memory.read8_write8_of_ne hr hp (fun h => hne (congrArg _ h)) v
    | _ => rfl
  | register r' =>
    cases r' with
    | atHL => exact absurd rfl hp
    | _ => cases r <;> first | rfl | exact absurd rfl hne

end Core

end Sm83
