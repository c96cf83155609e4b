import Sm83.Proofs.Arithmetic.Carries
import Sm83.Proofs.Operation.Program

/-!
# Additions of words, byte by byte

The additions of words compute their carries from the words. A word is two digits in base 256, so
the same carries come out of two additions of bytes, of which the second takes the carry of the
first: the carries out of bits 11 and 15 are those out of bits 3 and 7 of the higher bytes. For a
displacement the carries are those of the lower byte alone, although the displacement has a sign
and the word moves down when it is negative.

## Main results

* `addWords_eq_addBytes` — the sum of two words by their bytes.
* `addDisplacement_eq` — the sum of a word and a displacement, with the carries of the lower byte.
* `word_addition_by_bytes` — the instructions that add words against instructions that add bytes.
-/

namespace Sm83

/-! ### Sums -/

/-- The sum of two words by their bytes. -/
theorem addWords_eq_addBytes (x y : UInt16) (flags : Flags) :
    let low := addBytes (lowByte x) (lowByte y) false
    let high := addBytes (highByte x) (highByte y) low.2.c
    addWords x y flags =
      (word high.1 low.1, { z := flags.z, n := false, h := high.2.h, c := high.2.c }) := by
  intro low high
  have hx := x.toNat_lt
  have hy := y.toNat_lt
  have hlow : low.1.toNat + 256 * low.2.c.toNat = x.toNat % 256 + y.toNat % 256 := by
    rw [toNat_addBytes, toNat_lowByte, toNat_lowByte, Bool.toNat_false, Nat.add_zero]
  have hhigh : high.1.toNat + 256 * high.2.c.toNat =
      x.toNat / 256 + y.toNat / 256 + low.2.c.toNat := by
    rw [toNat_addBytes, toNat_highByte, toNat_highByte]
  have hlowLt := low.1.toNat_lt
  have hhighLt := high.1.toNat_lt
  have hsum : x + y = word high.1 low.1 := by
    rw [← UInt16.toNat_inj, toNat_word, UInt16.toNat_add]
    omega
  have hhalf : decide (4096 ≤ x.toNat % 4096 + y.toNat % 4096) = high.2.h := by
    change _ = decide (16 ≤ (highByte x).toNat % 16 + (highByte y).toNat % 16 + low.2.c.toNat)
    rw [toNat_highByte, toNat_highByte, decide_eq_decide]
    omega
  have hcarry : decide (65536 ≤ x.toNat + y.toNat) = high.2.c := by
    change _ = decide (256 ≤ (highByte x).toNat + (highByte y).toNat + low.2.c.toNat)
    rw [toNat_highByte, toNat_highByte, decide_eq_decide]
    omega
  rw [addWords, hsum, hhalf, hcarry]

/-! ### Displacements -/

/-- An address moves by the displacement as a number with a sign. -/
theorem toNat_displaced (x : UInt16) (e : Int8) :
    ((displaced x e).toNat : ℤ) = (x.toNat + e.toInt) % 65536 := by
  have he : e.toInt = (e.toInt16.toUInt16.toNat : ℤ).bmod 65536 := by
    rw [← Int8.toInt_toInt16, ← Int16.toInt_toBitVec, BitVec.toInt_eq_toNat_bmod]
    rfl
  have hmod : e.toInt % 65536 = (e.toInt16.toUInt16.toNat : ℤ) % 65536 := by
    rw [he]
    exact Int.bmod_emod
  rw [displaced, UInt16.toNat_add]
  omega

/-- The sum of a word and a displacement has the carries of the lower byte. -/
theorem addDisplacement_eq (x : UInt16) (e : Int8) :
    let low := addBytes (lowByte x) e.toUInt8 false
    addDisplacement x e =
      (displaced x e, { z := false, n := false, h := low.2.h, c := low.2.c }) := by
  intro low
  simp [addDisplacement, low, addBytes, toNat_lowByte]

/-! ### Instructions -/

/-- The program that adds a word to `HL` byte by byte: `ADD` for the lower bytes, then `ADC` for the
higher ones. -/
def addToHLByBytes (w : UInt16) : List Operation :=
  [.load .a .l, .aluImm .add (lowByte w), .load .l .a,
    .load .a .h, .aluImm .adc (highByte w), .load .h .a]

/-- The program that adds two bytes with `ADD`. -/
def addInA (x y : UInt8) : List Operation :=
  [.loadImm .a x, .aluImm .add y]

variable {β : Type u} [Bus β]

/-- `ADD HL` leaves the word and the carries that the program for its bytes leaves, and keeps the
zero flag. -/
theorem Operation.effect_addHL (p : Pair) (s : Core β) :
    let t := s.run (addToHLByBytes (s.regs.pair p))
    let flags : Flags :=
      { z := s.regs.flags.z, n := false, h := t.regs.flags.h, c := t.regs.flags.c }
    (addHL p).effect s =
      { s with regs := { s.regs with h := t.regs.h, l := t.regs.l, flags := flags } } := by
  intro t flags
  have hsum := addWords_eq_addBytes s.regs.hl (s.regs.pair p) s.regs.flags
  simp only [RegisterFile.hl, highByte_word, lowByte_word] at hsum
  simp only [effect, Core.modifyRegs, RegisterFile.hl, hsum, RegisterFile.setHL, highByte_word,
    lowByte_word]
  rfl

/-- `ADD SP` and `LD HL,SP+e` leave the carries of the program for the lower bytes. -/
theorem Operation.effect_addSP (e : Int8) (s : Core β) :
    let t := s.run (addInA (lowByte s.regs.sp) e.toUInt8)
    let v := displaced s.regs.sp e
    let flags : Flags := { z := false, n := false, h := t.regs.flags.h, c := t.regs.flags.c }
    (addSP e).effect s = { s with regs := { s.regs with sp := v, flags := flags } } ∧
      (loadHLSP e).effect s = { s with regs := { s.regs with flags := flags }.setHL v } := by
  intro t v flags
  simp only [effect, Core.modifyRegs, addDisplacement_eq]
  exact ⟨rfl, rfl⟩

/-- **Words are added like bytes.** Whatever the registers hold, `ADD HL` leaves in `HL` and in the
carries what `ADD` on the lower bytes and then `ADC` on the higher bytes leave there; it clears the
subtract flag and keeps the zero flag. `ADD SP` and `LD HL,SP+e` compute the stack pointer plus the
displacement with its sign, modulo `2 ^ 16`; their carries are those of `ADD` on the lower byte of
the stack pointer and the byte of the displacement, and the other two flags are cleared. -/
theorem word_addition_by_bytes (s : Core β) :
    (∀ p : Pair, ∃ t,
      Instruction.executeAll ((addToHLByBytes (s.regs.pair p)).map Operation.toInstruction) s =
          (.ok (), t) ∧
        let flags : Flags :=
          { z := s.regs.flags.z, n := false, h := t.regs.flags.h, c := t.regs.flags.c }
        (Operation.addHL p).toInstruction.execute s = (.ok ⟨8, .none⟩,
          { s with regs := { s.regs with h := t.regs.h, l := t.regs.l, flags := flags } })) ∧
    (∀ e : Int8, ∃ t v,
      Instruction.executeAll
          ((addInA (lowByte s.regs.sp) e.toUInt8).map Operation.toInstruction) s = (.ok (), t) ∧
        (v.toNat : ℤ) = (s.regs.sp.toNat + e.toInt) % 65536 ∧
        let flags : Flags := { z := false, n := false, h := t.regs.flags.h, c := t.regs.flags.c }
        (Operation.addSP e).toInstruction.execute s =
            (.ok ⟨16, .none⟩, { s with regs := { s.regs with sp := v, flags := flags } }) ∧
          (Operation.loadHLSP e).toInstruction.execute s =
            (.ok ⟨12, .none⟩, { s with regs := { s.regs with flags := flags }.setHL v })) := by
  constructor
  · intro p
    have hprogram : ∀ op ∈ addToHLByBytes (s.regs.pair p), op.Encodable := by
      simp [addToHLByBytes, Operation.Encodable]
    refine ⟨_, Instruction.executeAll_toInstruction hprogram s, ?_⟩
    rw [Instruction.execute_toInstruction]
    exact congrArg (Prod.mk _) (Operation.effect_addHL p s)
  · intro e
    have hprogram : ∀ op ∈ addInA (lowByte s.regs.sp) e.toUInt8, op.Encodable := by
      simp [addInA, Operation.Encodable]
    obtain ⟨hsp, hhl⟩ := Operation.effect_addSP e s
    refine ⟨_, displaced s.regs.sp e, Instruction.executeAll_toInstruction hprogram s,
      toNat_displaced _ e, ?_, ?_⟩
    · rw [Instruction.execute_toInstruction]
      exact congrArg (Prod.mk _) hsp
    · rw [Instruction.execute_toInstruction]
      exact congrArg (Prod.mk _) hhl

end Sm83
