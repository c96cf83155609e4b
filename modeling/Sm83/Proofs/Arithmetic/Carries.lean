import Mathlib.Data.Nat.Digits.Lemmas
import Mathlib.Tactic.Ring
import Mathlib.Tactic.SplitIfs
import Sm83.Arithmetic

/-!
# Carries through long numbers

Long numbers are added digit by digit, where each digit takes the carry of the one before it. That
the result is right is the same argument in every base and for sums as for differences: what every
digit balances with its two carries, the numbers balance with the last carry alone. The digits are
bytes in base 256, or bytes of two packed decimal digits in base 100.

## Main definitions

* `number` — the number with given digits.
* `packedValue`, `IsPacked` — bytes of two decimal digits.

## Main results

* `number_eq_of_carries` — carries cancel between neighbouring digits.
* `number_eq_sum_of_carries`, `number_eq_difference_of_borrows` — long sums and differences.
* `toNat_addBytes`, `toNat_subBytes` — one digit in base 256.
* `packedValue_addBytes`, `packedValue_subBytes` — one digit in base 100, after the correction.
-/

namespace Sm83

/-! ### Numbers and their digits -/

/-- The number with the first `n` of the given digits, the lowest one first. -/
def number (base : ℕ) (digit : ℕ → ℕ) (n : ℕ) : ℕ :=
  Nat.ofDigits base ((List.range n).map digit)

section Number

variable {base n : ℕ}

@[simp] theorem number_zero (base : ℕ) (digit : ℕ → ℕ) : number base digit 0 = 0 := rfl

theorem number_succ (base : ℕ) (digit : ℕ → ℕ) (n : ℕ) :
    number base digit (n + 1) = number base digit n + base ^ n * digit n := by
  simp [number, List.range_succ, Nat.ofDigits_append]

theorem number_lt (hbase : 1 < base) {digit : ℕ → ℕ} (h : ∀ i < n, digit i < base) :
    number base digit n < base ^ n := by
  simpa [number] using
    Nat.ofDigits_lt_base_pow_length (l := (List.range n).map digit) hbase (by simpa using h)

theorem number_add (base : ℕ) (x y : ℕ → ℕ) (n : ℕ) :
    number base (fun i => x i + y i) n = number base x n + number base y n := by
  induction n with
  | zero => rfl
  | succ n ih =>
    simp only [number_succ, ih]
    ring

/-- If every digit balances with the carry into it and the carry out of it, the numbers balance with
the first carry and the last one. -/
theorem number_eq_of_carries {u v c : ℕ → ℕ}
    (hdigit : ∀ i < n, u i + c i = v i + base * c (i + 1)) :
    number base u n + c 0 = number base v n + base ^ n * c n := by
  induction n with
  | zero => simp
  | succ n ih =>
    have hlower := ih fun i hi => hdigit i (Nat.lt_succ_of_lt hi)
    calc number base u (n + 1) + c 0
        = number base u n + c 0 + base ^ n * u n := by rw [number_succ]; ring
      _ = number base v n + base ^ n * (u n + c n) := by rw [hlower]; ring
      _ = number base v n + base ^ n * (v n + base * c (n + 1)) := by
        rw [hdigit n (Nat.lt_succ_self n)]
      _ = number base v n + base ^ n * v n + base ^ (n + 1) * c (n + 1) := by ring
      _ = number base v (n + 1) + base ^ (n + 1) * c (n + 1) := by rw [number_succ]

/-- **Sums digit by digit.** -/
theorem number_eq_sum_of_carries (hbase : 1 < base) {x y z : ℕ → ℕ} {c : ℕ → Bool}
    (hfirst : c 0 = false) (hz : ∀ i < n, z i < base)
    (hdigit : ∀ i < n, z i + base * (c (i + 1)).toNat = x i + y i + (c i).toNat) :
    number base z n = (number base x n + number base y n) % base ^ n ∧
      (c n = true ↔ base ^ n ≤ number base x n + number base y n) := by
  have hbalance : number base x n + number base y n = number base z n + base ^ n * (c n).toNat := by
    have hcarries := number_eq_of_carries (c := fun i => (c i).toNat) fun i hi => (hdigit i hi).symm
    simpa only [number_add, hfirst, Bool.toNat_false, Nat.add_zero] using hcarries
  have hlt := number_lt hbase hz
  rw [hbalance, Nat.add_mul_mod_self_left, Nat.mod_eq_of_lt hlt]
  cases c n with
  | false => simp [hlt]
  | true => simp

/-- **Differences digit by digit.** -/
theorem number_eq_difference_of_borrows (hbase : 1 < base) {x y z : ℕ → ℕ} {c : ℕ → Bool}
    (hfirst : c 0 = false) (hz : ∀ i < n, z i < base)
    (hdigit : ∀ i < n, z i + y i + (c i).toNat = x i + base * (c (i + 1)).toNat) :
    (number base z n : ℤ) = ((number base x n : ℤ) - number base y n) % (base ^ n : ℕ) ∧
      (c n = true ↔ number base x n < number base y n) := by
  have hbalance : number base z n + number base y n = number base x n + base ^ n * (c n).toNat := by
    have hcarries := number_eq_of_carries (c := fun i => (c i).toNat) hdigit
    simpa only [number_add, hfirst, Bool.toNat_false, Nat.add_zero] using hcarries
  have hlt := number_lt hbase hz
  generalize hmodulus : base ^ n = modulus at hbalance hlt ⊢
  have hdifference : (number base x n : ℤ) - number base y n =
      number base z n + modulus * (-(c n).toNat : ℤ) := by
    have hcast : (number base z n : ℤ) + number base y n =
        number base x n + modulus * (c n).toNat := by
      exact_mod_cast hbalance
    linarith
  refine ⟨?_, ?_⟩
  · rw [hdifference, Int.add_mul_emod_self_left, Int.emod_eq_of_lt] <;> omega
  · cases hlast : c n with
    | false =>
      rw [hlast, Bool.toNat_false] at hbalance
      exact iff_of_false Bool.false_ne_true (by omega)
    | true =>
      rw [hlast, Bool.toNat_true] at hbalance
      exact iff_of_true rfl (by omega)

end Number

/-! ### Bytes -/

theorem toNat_bitOf (b : Bool) : (bitOf b).toNat = b.toNat := by
  cases b <;> rfl

/-- A sum of bytes with both of its carries. -/
theorem toNat_addBytes (x y : UInt8) (carry : Bool) :
    (addBytes x y carry).1.toNat + 256 * (addBytes x y carry).2.c.toNat =
      x.toNat + y.toNat + carry.toNat := by
  have hx := x.toNat_lt
  have hy := y.toNat_lt
  have hcarry := carry.toNat_le
  simp only [addBytes, UInt8.toNat_add, toNat_bitOf]
  by_cases hout : 256 ≤ x.toNat + y.toNat + carry.toNat
  · rw [decide_eq_true hout, Bool.toNat_true]
    omega
  · rw [decide_eq_false hout, Bool.toNat_false]
    omega

/-- A difference of bytes with both of its borrows. -/
theorem toNat_subBytes (x y : UInt8) (borrow : Bool) :
    (subBytes x y borrow).1.toNat + y.toNat + borrow.toNat =
      x.toNat + 256 * (subBytes x y borrow).2.c.toNat := by
  have hx := x.toNat_lt
  have hy := y.toNat_lt
  have hborrow := borrow.toNat_le
  simp only [subBytes, UInt8.toNat_sub, toNat_bitOf]
  by_cases hout : x.toNat < y.toNat + borrow.toNat
  · rw [decide_eq_true hout, Bool.toNat_true]
    omega
  · rw [decide_eq_false hout, Bool.toNat_false]
    omega

/-! ### Packed decimal -/

/-- The number of two packed decimal digits. -/
def packedValue (v : UInt8) : ℕ :=
  v.toNat / 16 * 10 + v.toNat % 16

/-- Both halves of the byte are decimal digits. -/
def IsPacked (v : UInt8) : Prop :=
  v.toNat / 16 ≤ 9 ∧ v.toNat % 16 ≤ 9

instance : DecidablePred IsPacked := fun _ => inferInstanceAs (Decidable (_ ∧ _))

theorem packedValue_lt {v : UInt8} (h : IsPacked v) : packedValue v < 100 := by
  obtain ⟨hhigh, hlow⟩ := h
  rw [packedValue]
  omega

/-- The correction after a sum: six for each digit that is too large or had a carry. -/
theorem decimalAdjust_of_sum {a : UInt8} {flags : Flags} (hn : flags.n = false) :
    (decimalAdjust a flags).1.toNat =
        (a.toNat + (if flags.h || decide (9 < a.toNat % 16) then 6 else 0) +
          (if flags.c || decide (0x99 < a.toNat) then 0x60 else 0)) % 256 ∧
      (decimalAdjust a flags).2.c = (flags.c || decide (0x99 < a.toNat)) := by
  simp only [decimalAdjust, hn, Bool.not_false, Bool.true_and, Bool.false_eq_true, if_false]
  refine ⟨?_, trivial⟩
  cases flags.h || decide (9 < a.toNat % 16) <;> cases flags.c || decide (0x99 < a.toNat) <;>
    simp [UInt8.toNat_add]

/-- The correction after a difference: six off for each digit that had a borrow. -/
theorem decimalAdjust_of_difference {a : UInt8} {flags : Flags} (hn : flags.n = true) :
    (decimalAdjust a flags).1.toNat =
        (a.toNat + 256 - (if flags.h then 6 else 0) - (if flags.c then 0x60 else 0)) % 256 ∧
      (decimalAdjust a flags).2.c = flags.c := by
  simp only [decimalAdjust, hn, Bool.not_true, Bool.false_and, Bool.or_false, if_true]
  refine ⟨?_, trivial⟩
  cases flags.h <;> cases flags.c <;> simp [UInt8.toNat_sub] <;> omega

/-- A sum of packed bytes with both of its carries, after the correction. -/
theorem packedValue_addBytes {x y : UInt8} (hx : IsPacked x) (hy : IsPacked y) (carry : Bool) :
    let sum := addBytes x y carry
    let z := decimalAdjust sum.1 sum.2
    IsPacked z.1 ∧
      packedValue z.1 + 100 * z.2.c.toNat = packedValue x + packedValue y + carry.toNat := by
  intro sum z
  have hn : sum.2.n = false := rfl
  have hvalue : z.1.toNat = _ := (decimalAdjust_of_sum hn).1
  have hcarryOut : z.2.c = _ := (decimalAdjust_of_sum hn).2
  have hsum : sum.1.toNat + 256 * sum.2.c.toNat = _ := toNat_addBytes x y carry
  have hhalf : sum.2.h = decide (16 ≤ x.toNat % 16 + y.toNat % 16 + carry.toNat) := rfl
  have hbyte : sum.2.c = decide (256 ≤ x.toNat + y.toNat + carry.toNat) := rfl
  have hcarry := carry.toNat_le
  obtain ⟨hxhigh, hxlow⟩ := hx
  obtain ⟨hyhigh, hylow⟩ := hy
  -- the low digit is too large or had a carry if the digits add up to ten, and so for the high one
  have hlow : (sum.2.h || decide (9 < sum.1.toNat % 16)) =
      decide (10 ≤ x.toNat % 16 + y.toNat % 16 + carry.toNat) := by
    rw [hhalf, ← Bool.decide_or, decide_eq_decide]
    omega
  have hhigh : (sum.2.c || decide (0x99 < sum.1.toNat)) =
      decide (0x9A ≤ x.toNat + y.toNat + carry.toNat) := by
    rw [hbyte, ← Bool.decide_or, decide_eq_decide]
    omega
  have hz : z.1.toNat =
      (x.toNat + y.toNat + carry.toNat +
        (if 10 ≤ x.toNat % 16 + y.toNat % 16 + carry.toNat then 6 else 0) +
        (if 0x9A ≤ x.toNat + y.toNat + carry.toNat then 0x60 else 0)) % 256 := by
    simp only [hvalue, hlow, hhigh, decide_eq_true_eq]
    omega
  have hcz : z.2.c.toNat = if 0x9A ≤ x.toNat + y.toNat + carry.toNat then 1 else 0 := by
    rw [hcarryOut, hhigh]
    exact apply_ite ..
  rw [IsPacked, packedValue, packedValue, packedValue, hcz, hz]
  split_ifs <;> omega

/-- A difference of packed bytes with both of its borrows, after the correction. -/
theorem packedValue_subBytes {x y : UInt8} (hx : IsPacked x) (hy : IsPacked y) (borrow : Bool) :
    let difference := subBytes x y borrow
    let z := decimalAdjust difference.1 difference.2
    IsPacked z.1 ∧
      packedValue z.1 + packedValue y + borrow.toNat = packedValue x + 100 * z.2.c.toNat := by
  intro difference z
  have hn : difference.2.n = true := rfl
  have hvalue : z.1.toNat = _ := (decimalAdjust_of_difference hn).1
  have hborrowOut : z.2.c = _ := (decimalAdjust_of_difference hn).2
  have hdifference : difference.1.toNat + y.toNat + borrow.toNat =
      x.toNat + 256 * difference.2.c.toNat := toNat_subBytes x y borrow
  have hhalf : difference.2.h = decide (x.toNat % 16 < y.toNat % 16 + borrow.toNat) := rfl
  have hbyte : difference.2.c = decide (x.toNat < y.toNat + borrow.toNat) := rfl
  have hborrow := borrow.toNat_le
  obtain ⟨hxhigh, hxlow⟩ := hx
  obtain ⟨hyhigh, hylow⟩ := hy
  have hc : difference.2.c.toNat = if x.toNat < y.toNat + borrow.toNat then 1 else 0 := by
    rw [hbyte]
    exact apply_ite ..
  simp only [hhalf, hbyte, decide_eq_true_eq] at hvalue
  rw [hc] at hdifference
  rw [IsPacked, packedValue, packedValue, packedValue, hborrowOut, hc, hvalue]
  split_ifs at hdifference ⊢ <;> omega

end Sm83
