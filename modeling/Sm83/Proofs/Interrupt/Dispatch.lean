import Sm83.Proofs.Machine.Step
import Sm83.Proofs.Stack.Words

/-!
# The dispatch of an interrupt and the return from it

A dispatch withdraws one request and calls a handler as an instruction calls a subroutine, with
interrupts disabled. Where the stack lies in RAM nothing else changes, and a return that finds the
stack as the dispatch left it undoes the dispatch: it continues where the interrupted program was,
with interrupts enabled.

## Main definitions

* `Interrupt.bit` — the number of the bit of an interrupt.
* `ram` — the addresses of RAM, the echo of work RAM included.

## Main results

* `Interrupt.first?_eq_some_iff` — the interrupt of the lowest bit that is set is found.
* `Cpu.serviceInterrupts_eq_of_dispatch?_eq_some` — what a dispatch does, by its push.
* `Memory.write8_eq_of_mem_ram`, `Memory.read8_withdraw` — what the parts of a dispatch leave alone.
* `Core.execute_reti` — what a return does.
* `dispatch_then_return` — a dispatch and the return from it.
-/

namespace Sm83

/-! ### Bits of interrupts -/

namespace Interrupt

/-- The number of the bit of an interrupt in the request and enable registers. -/
def bit : Interrupt → Nat
  | vblank => 0
  | stat => 1
  | timer => 2
  | serial => 3
  | joypad => 4

theorem bit_lt (i : Interrupt) : i.bit < 5 := by
  cases i <;> decide

/-- The handlers are eight bytes apart. -/
theorem vector_eq (i : Interrupt) : i.vector = .ofNat (0x40 + 8 * i.bit) := by
  cases i <;> rfl

/-- The interrupt of the lowest bit that is set is found. -/
theorem first?_eq_some_iff {pending : UInt8} {i : Interrupt} :
    first? pending = some i ↔
      pending.toNat.testBit i.bit = true ∧ ∀ j < i.bit, pending.toNat.testBit j = false := by
  have hall : ∀ p : Fin 256, first? (UInt8.ofNat p) = some i ↔
      (UInt8.ofNat p).toNat.testBit i.bit = true ∧
        ∀ j < i.bit, (UInt8.ofNat p).toNat.testBit j = false := by
    cases i <;> decide +kernel
  simpa using hall pending.toFin

/-- A withdrawal clears one bit. -/
theorem testBit_clear (i : Interrupt) (requests : UInt8) (j : Nat) :
    (i.clear requests).toNat.testBit j = (requests.toNat.testBit j && j != i.bit) := by
  by_cases hj : j < 8
  · have hall : ∀ p : Fin 256, ∀ j < 8,
        (i.clear (UInt8.ofNat p)).toNat.testBit j =
          ((UInt8.ofNat p).toNat.testBit j && j != i.bit) := by
      cases i <;> decide +kernel
    simpa using hall requests.toFin j hj
  · have hhigh (b : UInt8) : b.toNat.testBit j = false := by
      refine Nat.testBit_lt_two_pow (b.toNat_lt.trans_le ?_)
      exact Nat.pow_le_pow_right (by decide) (Nat.le_of_not_lt hj)
    rw [hhigh, hhigh, Bool.false_and]

/-- A request that is raised sets one bit. -/
theorem testBit_request (i : Interrupt) (raised : Bool) (requests : UInt8) (j : Nat) :
    (i.request raised requests).toNat.testBit j =
      (requests.toNat.testBit j || (raised && j == i.bit)) := by
  cases raised with
  | false => rw [Bool.false_and, Bool.or_false, request, if_neg Bool.false_ne_true]
  | true =>
    have hmask : i.mask.toNat = 2 ^ i.bit := by cases i <;> rfl
    have hbit : (j == i.bit) = decide (i.bit = j) := by
      rw [BEq.comm]
      rfl
    rw [request, if_pos rfl, UInt8.toNat_or, Nat.testBit_or, hmask, Nat.testBit_two_pow,
      Bool.true_and, hbit]

end Interrupt

/-! ### Writes to RAM -/

/-- The addresses of RAM: video RAM, work RAM and its echo, OAM and high RAM. -/
def ram : Set UInt16 :=
  {a | a ∈ storage ∧ a ≠ 0xFFFF}

instance : DecidablePred (· ∈ ram) := fun a =>
  inferInstanceAs (Decidable (a ∈ storage ∧ a ≠ 0xFFFF))

namespace Memory

variable {m : Memory} (hmode : m.isFlat = false)

include hmode

/-- A write to RAM changes nothing but RAM. -/
theorem write8_eq_of_mem_ram {a : UInt16} (ha : a ∈ ram) (v : UInt8) :
    ∃ vram wram oam hram,
      m.write8 a v = { m with vram := vram, wram := wram, oam := oam, hram := hram } := by
  have hstores : (m.resolve a).region.stores = true := stores_of_mem_storage m.bootMapped ha.1
  have haddress : (m.resolve a).HasAddress a := hasAddress_locate m.bootMapped a
  rw [write8_of_not_isFlat hmode]
  generalize m.resolve a = l at hstores haddress ⊢
  obtain ⟨r, o⟩ := l
  have ho := o.isLt
  cases r with
  | vram | wram | oam | hram => exact ⟨_, _, _, _, rfl⟩
  | ie =>
    have hlast : a.toNat = 0xFFFF := by
      rcases haddress with haddress | ⟨hwram, -⟩
      · simp only [Region.start, Region.size] at haddress ho
        omega
      · cases hwram
    exact absurd (UInt16.toNat_inj.mp hlast) ha.2
  | bootRom | rom0 | rom1 | externalRam | unusable | io => cases hstores

/-- The requests are seen at their own address only. -/
theorem read8_withdraw {a : UInt16} (ha : a ≠ 0xFF0F) (requests : UInt8) :
    ({ m with requests := requests } : Memory).read8 a = m.read8 a := by
  have hmode' : ({ m with requests := requests } : Memory).isFlat = false := hmode
  rw [read8_of_not_isFlat hmode', read8_of_not_isFlat hmode]
  change readLocation _ (m.resolve a) = _
  rcases hplace : m.resolve a with ⟨r, o⟩
  cases r with
  | io =>
    have hrequests : ioRegister o ≠ .requests := fun h =>
      ha ((locate_eq_io_iff.mp hplace).trans ((ioRegister_eq_requests_iff o).mp h))
    cases hregister : ioRegister o with
    | requests => exact absurd hregister hrequests
    | _ => simp only [readLocation, readIo, hregister]
  | _ => rfl

end Memory

/-! ### The dispatch and the return -/

namespace Cpu

/-- A dispatch withdraws the request, pushes the program counter and continues at the vector, with
interrupts disabled. -/
theorem serviceInterrupts_eq_of_dispatch?_eq_some {c : Cpu} {m : Memory} {i : Interrupt}
    (h : c.dispatch? m = some i) :
    c.serviceInterrupts m = (20,
      { c with
        regs := { c.regs with sp := c.regs.sp - 2, pc := i.vector, ime := false }
        halted := false
        clocks := c.clocks + 20 },
      (Core.push ⟨{ c.regs with ime := false }, { m with requests := i.clear m.requests }⟩
        c.regs.pc).bus) := by
  rw [serviceInterrupts_of_dispatch?_some h]
  simp only [Core.call_eq, Memory.acknowledge_eq, spend, dispatchClocks]

end Cpu

/-- A push to RAM changes nothing but RAM. -/
theorem Core.bus_push_of_mem_ram (s : Core Memory) (w : UInt16) (hmode : s.bus.isFlat = false)
    (hhigh : s.regs.sp - 1 ∈ ram) (hlow : s.regs.sp - 2 ∈ ram) :
    ∃ vram wram oam hram,
      (s.push w).bus = { s.bus with vram := vram, wram := wram, oam := oam, hram := hram } := by
  have hmode' : (s.bus.write8 (s.regs.sp - 1) (highByte w)).isFlat = false :=
    (s.bus.isFlat_write8 _ _).trans hmode
  obtain ⟨_, _, _, _, hfirst⟩ := Memory.write8_eq_of_mem_ram hmode hhigh (highByte w)
  obtain ⟨_, _, _, _, hsecond⟩ := Memory.write8_eq_of_mem_ram hmode' hlow (lowByte w)
  rw [push_eq]
  exact ⟨_, _, _, _, hsecond.trans (by rw [hfirst])⟩

/-- A return from an interrupt takes the program counter from the stack and enables interrupts. -/
theorem Core.execute_reti (s : Core Memory) :
    Operation.reti.toInstruction.execute s = (.ok ⟨16, .none⟩,
      ⟨{ s.regs with sp := s.regs.sp + 2, pc := s.bus.read16 s.regs.sp, ime := true }, s.bus⟩) := by
  have hvalid : ∀ b, Operation.reti ≠ .invalid b := nofun
  rw [Instruction.execute_toInstruction, Operation.execute_eq_of_ne_invalid hvalid]
  simp only [Operation.effect, ret_eq, modifyRegs, Operation.clocks, Operation.control]

/-- **A return undoes a dispatch.** Let interrupts be enabled and pending in the usual mode, and let
the two cells below the stack pointer be in RAM. Then the interrupt of the lowest bit that is
pending is dispatched, in 20 clocks: the processor continues at its vector, with interrupts disabled
and no longer waiting. Its request is withdrawn, the stack pointer moves, and no other register, no
other part of memory but RAM, and no byte out of reach of the two cells is changed. If at any later
time `RETI` is executed with this stack pointer and the two bytes as they were left, the processor
continues where it was interrupted, with the stack pointer as it was and interrupts enabled.

If interrupts are not enabled or none is pending, then nothing happens but that a pending interrupt
ends a wait. -/
theorem dispatch_then_return (c : Cpu) (m : Memory) :
    (m.isFlat = false → c.regs.ime = true → Bus.pending m ≠ 0 →
      c.regs.sp - 1 ∈ ram → c.regs.sp - 2 ∈ ram →
      ∃ k < 5, ∃ m' : Memory,
        ((Bus.pending m).toNat.testBit k = true ∧
          ∀ j < k, (Bus.pending m).toNat.testBit j = false) ∧
        c.serviceInterrupts m = (20,
          { c with
            regs := { c.regs with sp := c.regs.sp - 2, pc := .ofNat (0x40 + 8 * k), ime := false }
            halted := false
            clocks := c.clocks + 20 }, m') ∧
        (∀ j, m'.requests.toNat.testBit j = (m.requests.toNat.testBit j && j != k)) ∧
        (∃ vram wram oam hram, m' = { m with
          vram := vram, wram := wram, oam := oam, hram := hram, requests := m'.requests }) ∧
        (∀ a, a ≠ 0xFF0F → a ∉ m.reach (c.regs.sp - 1) → a ∉ m.reach (c.regs.sp - 2) →
          m'.read8 a = m.read8 a) ∧
        ∀ s : Core Memory, s.regs.sp = c.regs.sp - 2 →
          s.bus.read8 (c.regs.sp - 1) = m'.read8 (c.regs.sp - 1) →
          s.bus.read8 (c.regs.sp - 2) = m'.read8 (c.regs.sp - 2) →
          Operation.reti.toInstruction.execute s = (.ok ⟨16, .none⟩,
            ⟨{ s.regs with sp := c.regs.sp, pc := c.regs.pc, ime := true }, s.bus⟩)) ∧
    (c.regs.ime = false ∨ Bus.pending m = 0 →
      c.serviceInterrupts m = (0, { c with halted := c.halted && Bus.pending m == 0 }, m)) := by
  constructor
  · intro hmode hime hpending hhigh hlow
    have hsome : c.dispatch? m ≠ none := fun hnone =>
      ((c.dispatch?_eq_none_iff m).mp hnone).elim (by simp [hime]) hpending
    obtain ⟨i, hi⟩ := Option.ne_none_iff_exists'.mp hsome
    have hfirst : Interrupt.first? (Bus.pending m) = some i := by
      rwa [Cpu.dispatch?, if_pos hime] at hi
    -- the push acts on the memory in which the request has been withdrawn
    let s₀ : Core Memory :=
      ⟨{ c.regs with ime := false }, { m with requests := i.clear m.requests }⟩
    obtain ⟨vram, wram, oam, hram, hpush⟩ :=
      s₀.bus_push_of_mem_ram c.regs.pc hmode hhigh hlow
    have hrequests : (s₀.push c.regs.pc).bus.requests = i.clear m.requests := by rw [hpush]
    refine ⟨i.bit, i.bit_lt, (s₀.push c.regs.pc).bus, Interrupt.first?_eq_some_iff.mp hfirst, ?_,
      fun j => ?_, ⟨vram, wram, oam, hram, ?_⟩, fun a ha hout hout' => ?_, fun s hsp hs hs' => ?_⟩
    · rw [← i.vector_eq]
      exact Cpu.serviceInterrupts_eq_of_dispatch?_eq_some hi
    · rw [hrequests, Interrupt.testBit_clear]
    · rw [hrequests]
      exact hpush
    · have hkept := (s₀.agreeOutside_push c.regs.pc).read8_eq a fun b hb => by
        rw [below_one] at hb
        rcases hb with rfl | rfl
        · exact hout
        · exact hout'
      exact hkept.trans (Memory.read8_withdraw hmode ha _)
    · have hback : c.regs.sp - 2 + 2 = c.regs.sp := by grind
      have hword : (s₀.push c.regs.pc).bus.read16 (c.regs.sp - 2) = c.regs.pc :=
        s₀.read16_push c.regs.pc (.inr hhigh.1) (.inr hlow.1)
      rw [Memory.read16_sub_two, ← hs, ← hs'] at hword
      rw [Core.execute_reti, hsp, Memory.read16_sub_two, hword, hback]
  · intro h
    rw [Cpu.serviceInterrupts_of_dispatch?_none ((Cpu.dispatch?_eq_none_iff c m).mpr h),
      Memory.isNone_first?_pending]

/-- The timer and the serial link interrupt a wait, with the stack between work RAM and its echo:
the timer is served first, and a return at once ends where the wait was. Had interrupts been
disabled, the wait would have ended without a dispatch. -/
theorem timer_dispatch_across_end_of_wram_returns :
    let m : Memory := { requests := 0x1C, enables := 0x0C }
    let c : Cpu :=
      { regs := { RegisterFile.postBoot with pc := 0x1234, sp := 0xE001, ime := true }
        halted := true }
    let masked : Cpu := { c with regs := { c.regs with ime := false } }
    (m.isFlat = false ∧ c.regs.ime = true ∧ Bus.pending m ≠ 0 ∧ c.regs.sp - 1 ∈ ram ∧
      c.regs.sp - 2 ∈ ram) ∧
    (∃ c' m', c.serviceInterrupts m = (20, c', m') ∧ c'.regs.pc = 0x50 ∧
      Operation.reti.toInstruction.execute (⟨c'.regs, m'⟩ : Core Memory) =
        (.ok ⟨16, .none⟩, ⟨c.regs, m'⟩)) ∧
    (masked.regs.ime = false ∧
      masked.serviceInterrupts m = (0, { masked with halted := false }, m)) := by
  intro m c masked
  have hmode : m.isFlat = false := rfl
  have hpending : Bus.pending m = 0x0C := by decide
  have hne : Bus.pending m ≠ 0 := by rw [hpending]; decide
  have hhigh : c.regs.sp - 1 ∈ ram := by decide
  have hlow : c.regs.sp - 2 ∈ ram := by decide
  obtain ⟨k, hk, m', ⟨hbit, hbelow⟩, hservice, -, -, -, hreturn⟩ :=
    (dispatch_then_return c m).1 hmode rfl hne hhigh hlow
  have hlowest : ∀ k < 5, (0x0C : UInt8).toNat.testBit k = true →
      (∀ j < k, (0x0C : UInt8).toNat.testBit j = false) → k = 2 := by
    decide
  rw [hpending] at hbit hbelow
  obtain rfl : k = 2 := hlowest k hk hbit hbelow
  refine ⟨⟨hmode, rfl, hne, hhigh, hlow⟩, ⟨_, m', hservice, rfl, ?_⟩, rfl, ?_⟩
  · exact hreturn _ rfl rfl rfl
  · have hmasked := (dispatch_then_return masked m).2 (.inl rfl)
    rw [hpending] at hmasked
    exact hmasked

end Sm83
