import Sm83.Proofs.Arithmetic.Carries
import Sm83.Proofs.Arithmetic.ShiftChains

/-!
# Shifts of long numbers

A chain of shifts through the bytes of a number shifts the number. What each rotate balances with
its two carries, the numbers balance with the first and the last one: to the left this is a sum of
the number with itself, to the right it is the same with the two sides exchanged, since there the
carries run from the highest byte down.

## Main results

* `LongShift.Layout.number_eq_twice`, `LongShift.Layout.number_eq_half` — the balance of a chain.
* `toInt_eq_half` — half of a number whose topmost bit comes in again.
* `shifts_of_any_length` — twice a number, and half of it with and without its sign.
-/

namespace Sm83

/-- The topmost bit of a number is that of its topmost byte. -/
theorem topBit_last {n : ℕ} (hn : 0 < n) (x : ℕ → UInt8) :
    let X := number 256 (fun j => (x j).toNat) n
    topBit (x (n - 1)) = decide (256 ^ n ≤ X + X) := by
  obtain ⟨m, rfl⟩ := Nat.exists_eq_add_one.mpr hn
  intro X
  have hlower : number 256 (fun j => (x j).toNat) m < 256 ^ m :=
    number_lt (by decide) fun j _ => (x j).toNat_lt
  have hX : X = number 256 (fun j => (x j).toNat) m + 256 ^ m * (x m).toNat := number_succ ..
  rw [topBit, decide_eq_decide, hX, Nat.pow_succ, Nat.add_sub_cancel]
  rcases Nat.lt_or_ge (x m).toNat 128 with htop | htop
  · have hmul := Nat.mul_le_mul_left (256 ^ m) (Nat.le_of_lt_succ htop)
    omega
  · have hmul := Nat.mul_le_mul_left (256 ^ m) htop
    omega

/-- The topmost bit of a number tells whether it is in the upper half. -/
theorem testBit_top {n X : ℕ} (hn : 0 < n) (hX : X < 256 ^ n) :
    X.testBit (8 * n - 1) = decide (256 ^ n ≤ X + X) := by
  have hpow : 256 ^ n = 2 ^ (8 * n - 1) * 2 := by
    rw [← Nat.pow_succ, Nat.succ_eq_add_one, Nat.sub_add_cancel (by omega), Nat.pow_mul]
  have hquotient : X / 2 ^ (8 * n - 1) < 2 := Nat.div_lt_of_lt_mul (hpow ▸ hX)
  have hupper : X / 2 ^ (8 * n - 1) = 1 ↔ 2 ^ (8 * n - 1) ≤ X := by
    rw [← Nat.one_le_div_iff (Nat.two_pow_pos _)]
    omega
  rw [Nat.testBit_eq_decide_div_mod_eq, decide_eq_decide, Nat.mod_eq_of_lt hquotient, hupper, hpow]
  omega

/-- A number with its topmost bit as its sign. -/
theorem toInt_ofNat_of_lt {w X : ℕ} (hX : X < 2 ^ w) :
    (BitVec.ofNat w X).toInt = (X : ℤ) - (2 ^ w : ℕ) * (decide (2 ^ w ≤ X + X)).toNat := by
  rw [BitVec.toInt_eq_toNat_cond, BitVec.toNat_ofNat, Nat.mod_eq_of_lt hX]
  by_cases htop : 2 ^ w ≤ X + X
  · rw [if_neg (by omega), decide_eq_true htop]
    simp
  · rw [if_pos (by omega), decide_eq_false htop]
    simp

/-- Half of a number that keeps its sign, rounded down. -/
theorem toInt_eq_half {w X Z : ℕ} {carry : Bool} (hw : 0 < w) (hX : X < 2 ^ w) (hZ : Z < 2 ^ w)
    (h : Z + Z + carry.toNat = X + 2 ^ w * (decide (2 ^ w ≤ X + X)).toNat) :
    (BitVec.ofNat w Z).toInt = (BitVec.ofNat w X).toInt / 2 := by
  have hcarry := carry.toNat_le
  have hmodulus : 2 ≤ 2 ^ w := Nat.le_self_pow hw.ne' 2
  rw [toInt_ofNat_of_lt hX, toInt_ofNat_of_lt hZ]
  generalize 2 ^ w = modulus at *
  by_cases hsign : modulus ≤ X + X
  · rw [decide_eq_true hsign, Bool.toNat_true, Nat.mul_one] at h
    have hsign' : modulus ≤ Z + Z := by omega
    rw [decide_eq_true hsign, decide_eq_true hsign', Bool.toNat_true]
    omega
  · rw [decide_eq_false hsign, Bool.toNat_false, Nat.mul_zero, Nat.add_zero] at h
    have hsign' : ¬modulus ≤ Z + Z := by omega
    rw [decide_eq_false hsign, decide_eq_false hsign', Bool.toNat_false]
    omega

namespace LongShift.Layout

variable {k : LongShift} {operand : ℕ → Reg8} {between : ℕ → List Operation} {s : Core Memory}
  {n : ℕ} {x : ℕ → UInt8} {place : ℕ → ℕ → BytePlace}

/-- A shift to the left doubles the number. -/
theorem number_eq_twice (h : left.Layout operand between s n x place) (hn : 0 < n) :
    let t := left.before operand between s n
    let X := number 256 (fun j => (x j).toNat) n
    number 256 (fun j => (t.look (place n j)).toNat) n = 2 * X % 256 ^ n ∧
      t.regs.flags.c = X.testBit (8 * n - 1) := by
  intro t X
  have hX : X < 256 ^ n := number_lt (by decide) fun j _ => (x j).toNat_lt
  have hdigit : ∀ i < n,
      (t.look (place n i)).toNat + 256 * (left.carryIn operand between s n x (i + 1)).toNat =
        (x i).toNat + (x i).toNat + (left.carryIn operand between s n x i).toNat := by
    intro i hi
    obtain ⟨hlook, hout⟩ := h.digits hi
    rw [hout]
    exact (congrArg (·.toNat + _) hlook).trans (toNat_rotateLeft _ _)
  obtain ⟨hsum, hcarry⟩ :=
    number_eq_sum_of_carries (by decide) rfl (fun _ _ => UInt8.toNat_lt _) hdigit
  rw [left.carryIn_of_pos operand between s hn] at hcarry
  refine ⟨by rw [hsum, Nat.two_mul], ?_⟩
  rw [testBit_top hn hX, Bool.eq_iff_iff, hcarry, decide_eq_true_eq]

/-- A shift to the right halves the number with the bit in front of it. -/
theorem number_eq_half (h : k.Layout operand between s n x place) (hk : k ≠ left) (hn : 0 < n) :
    let t := k.before operand between s n
    let X := number 256 (fun j => (x j).toNat) n
    let Z := number 256 (fun j => (t.look (place n j)).toNat) n
    Z + Z + t.regs.flags.c.toNat = X + 256 ^ n * (k.fill (x (n - 1))).toNat := by
  intro t X Z
  have hright : k.rotation = .rr ∧ ∀ i, k.byte n i = n - 1 - i := by
    cases k with
    | left => exact absurd rfl hk
    | logicalRight | arithmeticRight => exact ⟨rfl, fun _ => rfl⟩
  -- a byte takes its carry from the byte above it and hands one to the byte below it
  have hdigit : ∀ j < n, (t.look (place n j)).toNat + (t.look (place n j)).toNat +
      (k.carryIn operand between s n x (n - j)).toNat =
        (x j).toNat + 256 * (k.carryIn operand between s n x (n - (j + 1))).toNat := by
    intro j hj
    have hself : k.byte n (n - 1 - j) = j := by
      rw [hright.2]
      omega
    obtain ⟨hlook, hout⟩ := h.digits (i := n - 1 - j) (by omega)
    rw [hself, hright.1] at hlook hout
    rw [show n - j = n - 1 - j + 1 by omega, show n - (j + 1) = n - 1 - j by omega, hout]
    simp only [t, hlook]
    exact toNat_rotateRight _ _
  have hhalf : Z + Z + (k.carryIn operand between s n x (n - 0)).toNat =
      X + 256 ^ n * (k.carryIn operand between s n x (n - n)).toNat := by
    rw [← number_add]
    exact number_eq_of_carries (c := fun j => (k.carryIn operand between s n x (n - j)).toNat)
      hdigit
  rw [Nat.sub_zero, Nat.sub_self, k.carryIn_of_pos operand between s hn, carryIn_zero,
    hright.2 0] at hhalf
  exact hhalf

/-- After a shift to the right the lowest bit of the number is in the carry. -/
theorem carry_eq_testBit_zero (h : k.Layout operand between s n x place) (hk : k ≠ left)
    (hn : 0 < n) :
    (k.before operand between s n).regs.flags.c =
      (number 256 (fun j => (x j).toNat) n).testBit 0 := by
  have hhalf := h.number_eq_half hk hn
  obtain ⟨m, rfl⟩ := Nat.exists_eq_add_one.mpr hn
  simp only [Nat.pow_succ, Nat.mul_assoc, Nat.mul_left_comm _ 256] at hhalf
  rw [Nat.testBit_zero]
  cases hcarry : (k.before operand between s (m + 1)).regs.flags.c with
  | false =>
    rw [hcarry, Bool.toNat_false] at hhalf
    exact (decide_eq_false (by omega)).symm
  | true =>
    rw [hcarry, Bool.toNat_true] at hhalf
    exact (decide_eq_true (by omega)).symm

end LongShift.Layout

/-- **Shifts of any length.** Let the bytes of the number `X` be in registers and in plain RAM, each
at a place of its own, and let the operations in front of each shift change no flags and lose no
byte. Then all instructions are executed. `SLA` on the lowest byte and `RL` on each byte above it
leave `2 * X` modulo `256 ^ n`, and the topmost bit of `X` in the carry. `SRL` on the highest byte
and `RR` on each byte below it leave half of `X`, and `SRA` in place of `SRL` leaves half of `X`
with the topmost bit as its sign; both round down, and leave the lowest bit of `X` in the carry. -/
theorem shifts_of_any_length {n : ℕ} (hn : 0 < n) (operand : ℕ → Reg8)
    (between : ℕ → List Operation) (s : Core Memory) (x : ℕ → UInt8)
    (place : ℕ → ℕ → BytePlace) :
    let X := number 256 (fun j => (x j).toNat) n
    let Z (t : Core Memory) := number 256 (fun j => (t.look (place n j)).toNat) n
    let program (k : LongShift) := (k.program operand between n).map Operation.toInstruction
    (LongShift.left.Layout operand between s n x place →
      ∃ s', Instruction.executeAll (program .left) s = (.ok (), s') ∧
        Z s' = 2 * X % 256 ^ n ∧ s'.regs.flags.c = X.testBit (8 * n - 1)) ∧
    (LongShift.logicalRight.Layout operand between s n x place →
      ∃ s', Instruction.executeAll (program .logicalRight) s = (.ok (), s') ∧
        Z s' = X / 2 ∧ s'.regs.flags.c = X.testBit 0) ∧
    (LongShift.arithmeticRight.Layout operand between s n x place →
      ∃ s', Instruction.executeAll (program .arithmeticRight) s = (.ok (), s') ∧
        (BitVec.ofNat (8 * n) (Z s')).toInt = (BitVec.ofNat (8 * n) X).toInt / 2 ∧
        s'.regs.flags.c = X.testBit 0) := by
  intro X Z program
  refine ⟨fun h => ⟨_, h.executeAll_program, h.number_eq_twice hn⟩,
    fun h => ⟨_, h.executeAll_program, ?_, h.carry_eq_testBit_zero (by decide) hn⟩,
    fun h => ⟨_, h.executeAll_program, ?_, h.carry_eq_testBit_zero (by decide) hn⟩⟩
  · have hcarry := Bool.toNat_le (LongShift.logicalRight.before operand between s n).regs.flags.c
    have hhalf : Z _ + Z _ + _ = X + 256 ^ n * 0 := h.number_eq_half (by decide) hn
    omega
  · have hpow : 2 ^ (8 * n) = 256 ^ n := Nat.pow_mul 2 8 n
    have hlt (y : ℕ → UInt8) : number 256 (fun j => (y j).toNat) n < 2 ^ (8 * n) :=
      hpow ▸ number_lt (by decide) fun j _ => (y j).toNat_lt
    have hhalf := h.number_eq_half (by decide) hn
    rw [LongShift.fill, topBit_last hn, ← hpow] at hhalf
    exact toInt_eq_half (by omega) (hlt x) (hlt _) hhalf

/-- `0x81C3` with its lower byte in `B` and its higher byte in high RAM. Both its topmost and its
lowest bit are set, so a bit falls out on either side; as a signed number it is `-32317`. -/
theorem two_byte_shifts_of_register_and_RAM :
    let x : ℕ → UInt8 := fun j => if j = 0 then 0xC3 else 0x81
    let p : ℕ → BytePlace := fun j => if j = 0 then .register .b else .cell 0xFF80
    let s : Core Memory := ⟨{ b := 0xC3 }, ({} : Memory).write8 0xFF80 0x81⟩
    let operand (k : LongShift) (i : ℕ) : Reg8 := (p (k.byte 2 i)).operand
    let between (k : LongShift) (i : ℕ) : List Operation := (p (k.byte 2 i)).point
    let Z (t : Core Memory) := number 256 (fun j => (t.look (p j)).toNat) 2
    let program (k : LongShift) :=
      (k.program (operand k) (between k) 2).map Operation.toInstruction
    0 < 2 ∧
    (∀ k : LongShift, k.Layout (operand k) (between k) s 2 x fun _ => p) ∧
    (∃ s', Instruction.executeAll (program .left) s = (.ok (), s') ∧
      Z s' = 0x0386 ∧ s'.regs.flags.c = true) ∧
    (∃ s', Instruction.executeAll (program .logicalRight) s = (.ok (), s') ∧
      Z s' = 0x40E1 ∧ s'.regs.flags.c = true) ∧
    (∃ s', Instruction.executeAll (program .arithmeticRight) s = (.ok (), s') ∧
      (BitVec.ofNat 16 (Z s')).toInt = -16159 ∧ s'.regs.flags.c = true) := by
  intro x p s operand between Z program
  have hlayout (k : LongShift) : k.Layout (operand k) (between k) s 2 x fun _ => p :=
    k.layout_in_place (by decide +kernel) (by decide +kernel) (by decide)
  have hlength : 0 < 2 := by decide
  have hshifts (k : LongShift) :=
    shifts_of_any_length hlength (operand k) (between k) s x fun _ => p
  have hx : number 256 (fun j => (x j).toNat) 2 = 0x81C3 := by decide
  obtain ⟨s₁, hrun₁, hz₁, hc₁⟩ := (hshifts .left).1 (hlayout .left)
  obtain ⟨s₂, hrun₂, hz₂, hc₂⟩ := (hshifts .logicalRight).2.1 (hlayout .logicalRight)
  obtain ⟨s₃, hrun₃, hz₃, hc₃⟩ := (hshifts .arithmeticRight).2.2 (hlayout .arithmeticRight)
  rw [hx] at hz₁ hc₁ hz₂ hc₂ hz₃ hc₃
  exact ⟨hlength, hlayout, ⟨s₁, hrun₁, hz₁, hc₁.trans (by decide)⟩,
    ⟨s₂, hrun₂, hz₂, hc₂.trans (by decide)⟩, s₃, hrun₃, hz₃.trans (by decide),
    hc₃.trans (by decide)⟩

end Sm83
