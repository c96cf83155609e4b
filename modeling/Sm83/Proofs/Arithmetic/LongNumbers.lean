import Sm83.Proofs.Arithmetic.Carries
import Sm83.Proofs.Arithmetic.Rounds

/-!
# Sums and differences of long numbers

With the add and subtract operations of the accumulator, and the carry between them, numbers of any
length can be added and subtracted byte by byte; with the correction after each of them, so can
packed decimal numbers. The last carry tells whether the sum is too long, or whether the difference
is negative.

## Main results

* `binary_arithmetic_of_any_length` — bytes as digits in base 256.
* `decimal_arithmetic_of_any_length` — bytes as digits in base 100.
-/

namespace Sm83

namespace LongArithmetic.Layout

variable {k : LongArithmetic} {rounds : ℕ → Round} {s : Core Memory} {n : ℕ} {x y : ℕ → UInt8}
  {z : ℕ → BytePlace}

/-- Rounds whose digits add up, add the numbers. -/
theorem number_eq_sum (h : k.Layout rounds s n x y z) (hn : 0 < n) {base : ℕ} (hbase : 1 < base)
    {value : UInt8 → ℕ}
    (hdigit : ∀ i < n, ∀ carry, let d := k.digit (x i) (y i) carry
      value d.1 < base ∧ value d.1 + base * d.2.c.toNat = value (x i) + value (y i) + carry.toNat) :
    let X := number base (fun i => value (x i)) n
    let Y := number base (fun i => value (y i)) n
    let Z := number base (fun i => value ((k.after rounds s n).look (z i))) n
    Z = (X + Y) % base ^ n ∧ ((k.after rounds s n).regs.flags.c = true ↔ base ^ n ≤ X + Y) := by
  rw [← k.carryIn_of_pos rounds s hn]
  refine number_eq_sum_of_carries hbase (k.carryIn_zero rounds s) (fun i hi => ?_) fun i hi => ?_
  · rw [(h.digits hi).1]
    exact (hdigit i hi _).1
  · rw [(h.digits hi).1, (h.digits hi).2]
    exact (hdigit i hi _).2

/-- Rounds whose digits are differences, subtract the numbers. -/
theorem number_eq_difference (h : k.Layout rounds s n x y z) (hn : 0 < n) {base : ℕ}
    (hbase : 1 < base) {value : UInt8 → ℕ}
    (hdigit : ∀ i < n, ∀ borrow, let d := k.digit (x i) (y i) borrow
      value d.1 < base ∧
        value d.1 + value (y i) + borrow.toNat = value (x i) + base * d.2.c.toNat) :
    let X := number base (fun i => value (x i)) n
    let Y := number base (fun i => value (y i)) n
    let Z := number base (fun i => value ((k.after rounds s n).look (z i))) n
    (Z : ℤ) = ((X : ℤ) - Y) % (base ^ n : ℕ) ∧
      ((k.after rounds s n).regs.flags.c = true ↔ X < Y) := by
  rw [← k.carryIn_of_pos rounds s hn]
  refine number_eq_difference_of_borrows hbase (k.carryIn_zero rounds s) (fun i hi => ?_)
    fun i hi => ?_
  · rw [(h.digits hi).1]
    exact (hdigit i hi _).1
  · rw [(h.digits hi).1, (h.digits hi).2]
    exact (hdigit i hi _).2

end LongArithmetic.Layout

/-- **Binary arithmetic of any length.** Rounds that move two bytes into place, add them, and store
the result, the first with `ADD` and the others with `ADC`, add the numbers of these bytes modulo
`256 ^ n`; the last carry is set exactly if the sum is `256 ^ n` or more. With `SUB` and `SBC` they
subtract the numbers, and the last carry is set exactly if the difference is negative. -/
theorem binary_arithmetic_of_any_length {n : ℕ} (hn : 0 < n) (rounds : ℕ → Round)
    (s : Core Memory) (x y : ℕ → UInt8) (z : ℕ → BytePlace) :
    let X := number 256 (fun i => (x i).toNat) n
    let Y := number 256 (fun i => (y i).toNat) n
    let sum : LongArithmetic := { subtract := false, decimal := false }
    let difference : LongArithmetic := { subtract := true, decimal := false }
    (sum.Layout rounds s n x y z → ∃ s',
      Instruction.executeAll ((sum.program rounds n).map Operation.toInstruction) s = (.ok (), s') ∧
        number 256 (fun i => (s'.look (z i)).toNat) n = (X + Y) % 256 ^ n ∧
        (s'.regs.flags.c = true ↔ 256 ^ n ≤ X + Y)) ∧
    (difference.Layout rounds s n x y z → ∃ s',
      Instruction.executeAll ((difference.program rounds n).map Operation.toInstruction) s =
          (.ok (), s') ∧
        (number 256 (fun i => (s'.look (z i)).toNat) n : ℤ) = ((X : ℤ) - Y) % (256 ^ n : ℕ) ∧
        (s'.regs.flags.c = true ↔ X < Y)) := by
  intro X Y sum difference
  refine ⟨fun h => ⟨_, h.executeAll_program, ?_⟩, fun h => ⟨_, h.executeAll_program, ?_⟩⟩
  · exact h.number_eq_sum hn (by decide) fun i _ carry =>
      ⟨UInt8.toNat_lt _, toNat_addBytes (x i) (y i) carry⟩
  · exact h.number_eq_difference hn (by decide) fun i _ borrow =>
      ⟨UInt8.toNat_lt _, toNat_subBytes (x i) (y i) borrow⟩

/-- `0x12F0 + 0xEE20` is too long by one bit, and `0x12F0 - 0xEE20` is negative. -/
theorem two_byte_arithmetic_in_high_ram :
    let x : ℕ → UInt8 := fun i => if i = 0 then 0xF0 else 0x12
    let y : ℕ → UInt8 := fun i => if i = 0 then 0x20 else 0xEE
    let px : ℕ → UInt16 := fun i => 0xFF80 + UInt16.ofNat i
    let py : ℕ → UInt16 := fun i => 0xFF82 + UInt16.ofNat i
    let pz : ℕ → UInt16 := fun i => 0xFF84 + UInt16.ofNat i
    let s : Core Memory :=
      ⟨{}, (((({} : Memory).write8 (px 0) (x 0)).write8 (px 1) (x 1)).write8 (py 0) (y 0)).write8
        (py 1) (y 1)⟩
    let rounds := LongArithmetic.ramRounds px py pz
    let sum : LongArithmetic := { subtract := false, decimal := false }
    let difference : LongArithmetic := { subtract := true, decimal := false }
    0 < 2 ∧
    (sum.Layout rounds s 2 x y (fun i => .cell (pz i)) ∧ ∃ s',
      Instruction.executeAll ((sum.program rounds 2).map Operation.toInstruction) s = (.ok (), s') ∧
        number 256 (fun i => (s'.bus.read8 (pz i)).toNat) 2 = 0x0110 ∧ s'.regs.flags.c = true) ∧
    (difference.Layout rounds s 2 x y (fun i => .cell (pz i)) ∧ ∃ s',
      Instruction.executeAll ((difference.program rounds 2).map Operation.toInstruction) s =
          (.ok (), s') ∧
        (number 256 (fun i => (s'.bus.read8 (pz i)).toNat) 2 : ℤ) = 0x24D0 ∧
        s'.regs.flags.c = true) := by
  intro x y px py pz s rounds sum difference
  have hlayout (k : LongArithmetic) : k.Layout rounds s 2 x y fun i => .cell (pz i) :=
    LongArithmetic.layout_in_ram (by decide +kernel) (by decide +kernel) (by decide) (by decide)
  have hlength : 0 < 2 := by decide
  obtain ⟨hsum, hdifference⟩ :=
    binary_arithmetic_of_any_length hlength rounds s x y fun i => .cell (pz i)
  have hx : number 256 (fun i => (x i).toNat) 2 = 0x12F0 := by decide
  have hy : number 256 (fun i => (y i).toNat) 2 = 0xEE20 := by decide
  obtain ⟨s₁, hrun₁, hz₁, hc₁⟩ := hsum (hlayout sum)
  obtain ⟨s₂, hrun₂, hz₂, hc₂⟩ := hdifference (hlayout difference)
  rw [hx, hy] at hz₁ hc₁ hz₂ hc₂
  exact ⟨hlength, ⟨hlayout sum, s₁, hrun₁, hz₁, hc₁.mpr (by decide)⟩,
    hlayout difference, s₂, hrun₂, hz₂, hc₂.mpr (by decide)⟩

/-- **Decimal arithmetic of any length.** The same rounds with the correction after each operation
add and subtract packed decimal numbers modulo `100 ^ n`. The result is packed decimal again, and
the last carry is that of the numbers. -/
theorem decimal_arithmetic_of_any_length {n : ℕ} (hn : 0 < n) (rounds : ℕ → Round)
    (s : Core Memory) (x y : ℕ → UInt8) (z : ℕ → BytePlace) (hx : ∀ i < n, IsPacked (x i))
    (hy : ∀ i < n, IsPacked (y i)) :
    let X := number 100 (fun i => packedValue (x i)) n
    let Y := number 100 (fun i => packedValue (y i)) n
    let sum : LongArithmetic := { subtract := false, decimal := true }
    let difference : LongArithmetic := { subtract := true, decimal := true }
    (sum.Layout rounds s n x y z → ∃ s',
      Instruction.executeAll ((sum.program rounds n).map Operation.toInstruction) s = (.ok (), s') ∧
        (∀ i < n, IsPacked (s'.look (z i))) ∧
        number 100 (fun i => packedValue (s'.look (z i))) n = (X + Y) % 100 ^ n ∧
        (s'.regs.flags.c = true ↔ 100 ^ n ≤ X + Y)) ∧
    (difference.Layout rounds s n x y z → ∃ s',
      Instruction.executeAll ((difference.program rounds n).map Operation.toInstruction) s =
          (.ok (), s') ∧
        (∀ i < n, IsPacked (s'.look (z i))) ∧
        (number 100 (fun i => packedValue (s'.look (z i))) n : ℤ) =
          ((X : ℤ) - Y) % (100 ^ n : ℕ) ∧
        (s'.regs.flags.c = true ↔ X < Y)) := by
  intro X Y sum difference
  have hsum (i : ℕ) (hi : i < n) (carry : Bool) := packedValue_addBytes (hx i hi) (hy i hi) carry
  have hdifference (i : ℕ) (hi : i < n) (borrow : Bool) :=
    packedValue_subBytes (hx i hi) (hy i hi) borrow
  refine ⟨fun h => ⟨_, h.executeAll_program, fun i hi => ?_, ?_⟩,
    fun h => ⟨_, h.executeAll_program, fun i hi => ?_, ?_⟩⟩
  · rw [(h.digits hi).1]
    exact (hsum i hi _).1
  · exact h.number_eq_sum hn (by decide) fun i hi carry =>
      ⟨packedValue_lt (hsum i hi carry).1, (hsum i hi carry).2⟩
  · rw [(h.digits hi).1]
    exact (hdifference i hi _).1
  · exact h.number_eq_difference hn (by decide) fun i hi borrow =>
      ⟨packedValue_lt (hdifference i hi borrow).1, (hdifference i hi borrow).2⟩

/-- `4321 + 8765` is too long by one digit, and `4321 - 8765` is negative. The carry in front of the
first round does not count. -/
theorem four_digit_arithmetic_in_registers :
    let x : ℕ → UInt8 := fun i => if i = 0 then 0x21 else 0x43
    let y : ℕ → UInt8 := fun i => if i = 0 then 0x65 else 0x87
    let r : ℕ → Reg8 := fun i => if i = 0 then .b else .c
    let s : Core Memory := ⟨{ flags := { c := true } }, {}⟩
    let rounds : ℕ → Round := fun i => ⟨[.loadImm .a (x i)], .constant (y i), .load (r i) .a⟩
    let sum : LongArithmetic := { subtract := false, decimal := true }
    let difference : LongArithmetic := { subtract := true, decimal := true }
    (0 < 2 ∧ (∀ i < 2, IsPacked (x i)) ∧ ∀ i < 2, IsPacked (y i)) ∧
    (sum.Layout rounds s 2 x y (fun i => .register (r i)) ∧ ∃ s',
      Instruction.executeAll ((sum.program rounds 2).map Operation.toInstruction) s = (.ok (), s') ∧
        number 100 (fun i => packedValue (s'.look (.register (r i)))) 2 = 3086 ∧
        s'.regs.flags.c = true) ∧
    (difference.Layout rounds s 2 x y (fun i => .register (r i)) ∧ ∃ s',
      Instruction.executeAll ((difference.program rounds 2).map Operation.toInstruction) s =
          (.ok (), s') ∧
        (number 100 (fun i => packedValue (s'.look (.register (r i)))) 2 : ℤ) = 5556 ∧
        s'.regs.flags.c = true) := by
  intro x y r s rounds sum difference
  have hlayout : ∀ k ∈ [sum, difference], k.Layout rounds s 2 x y fun i => .register (r i) := by
    intro k hk
    constructor
    · intro i _
      simp [rounds, Operation.Moves, Operation.toInstruction]
    · intro i _
      rfl
    · intro i _
      rfl
    · intro i _
      cases i <;> rfl
    · intro i _
      trivial
    · revert k
      decide +kernel
  have hlength : 0 < 2 := by decide
  have hpacked : (∀ i < 2, IsPacked (x i)) ∧ ∀ i < 2, IsPacked (y i) := by decide
  obtain ⟨hsum, hdifference⟩ :=
    decimal_arithmetic_of_any_length hlength rounds s x y (fun i => .register (r i)) hpacked.1
      hpacked.2
  have hx : number 100 (fun i => packedValue (x i)) 2 = 4321 := by decide
  have hy : number 100 (fun i => packedValue (y i)) 2 = 8765 := by decide
  have hlayout₁ := hlayout sum (by simp)
  have hlayout₂ := hlayout difference (by simp)
  obtain ⟨s₁, hrun₁, -, hz₁, hc₁⟩ := hsum hlayout₁
  obtain ⟨s₂, hrun₂, -, hz₂, hc₂⟩ := hdifference hlayout₂
  rw [hx, hy] at hz₁ hc₁ hz₂ hc₂
  exact ⟨⟨hlength, hpacked⟩, ⟨hlayout₁, s₁, hrun₁, hz₁, hc₁.mpr (by decide)⟩,
    hlayout₂, s₂, hrun₂, hz₂, hc₂.mpr (by decide)⟩

end Sm83
