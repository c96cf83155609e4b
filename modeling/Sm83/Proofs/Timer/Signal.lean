import Mathlib.Algebra.Group.Nat.Defs
import Sm83.Proofs.Timer.Elapse

/-!
# The signal of the timer

The signal of the timer is one bit of its divider, while the timer is enabled. The latch holds the
level of the signal when it was last looked at, and whatever moves the divider or changes the
control register looks again. So between any two operations the latch is the present level.

## Main definitions

* `Timer.selectedBit` — the bit of the divider that a control byte selects.
* `Timer.WellFormed` — the latch is the present level, and the control register has three bits.

## Main results

* `Timer.signal_eq_testBit` — the signal is the selected bit, gated by the enable bit.
* `Timer.WellFormed.writeAt`, `Timer.WellFormed.advance` — writes and clocks keep the latch right.
-/

namespace Sm83

namespace Timer

/-- The bit of the divider that is the signal of an enabled timer. -/
def selectedBit (tac : UInt8) : Nat :=
  match tac.toNat % 4 with
  | 0 => 9
  | 1 => 3
  | 2 => 5
  | _ => 7

theorem period_eq (tac : UInt8) : period tac = 2 ^ (selectedBit tac + 1) := by
  unfold period selectedBit
  generalize tac.toNat % 4 = rate
  match rate with
  | 0 | 1 | 2 | _ + 3 => rfl

/-- In the second half of each period the highest bit below the period is set. -/
theorem testBit_eq_decide_half_le (n b : Nat) :
    n.testBit b = decide (2 ^ (b + 1) / 2 ≤ n % 2 ^ (b + 1)) := by
  have hhalf : 2 ^ (b + 1) / 2 = 2 ^ b := by
    rw [Nat.pow_succ, Nat.mul_div_cancel _ (by decide)]
  have hrest : n % 2 ^ b < 2 ^ b := Nat.mod_lt _ (Nat.two_pow_pos b)
  rw [Nat.testBit_eq_decide_div_mod_eq, hhalf, Nat.mod_pow_succ, decide_eq_decide]
  rcases Nat.mod_two_eq_zero_or_one (n / 2 ^ b) with hbit | hbit
  · rw [hbit]
    omega
  · rw [hbit]
    omega

/-- The enable bit of the control register is bit 2. -/
theorem enabled_eq_testBit (tac : UInt8) : enabled tac = tac.toNat.testBit 2 := by
  rw [Nat.testBit_eq_decide_div_mod_eq]
  rfl

/-- The signal is the selected bit of the divider, gated by the enable bit of the control
register. -/
theorem signal_eq_testBit (div : UInt16) (tac : UInt8) :
    signal div tac = (tac.toNat.testBit 2 && div.toNat.testBit (selectedBit tac)) := by
  rw [signal, period_eq, ← testBit_eq_decide_half_le, enabled_eq_testBit]

/-! ### The latch -/

/-- The latch is the present level of the signal, and the control register has no bits but its
three. -/
structure WellFormed (t : Timer) : Prop where
  tac_le : t.tac ≤ 7
  latch_eq : t.latch = signal t.div t.tac

/-- The timer at power-on, switched off and with all bits of its divider clear. -/
theorem wellFormed_default : WellFormed {} :=
  ⟨by decide, rfl⟩

variable {t : Timer}

/-- To look at the signal changes neither the divider nor the control register, and leaves the
latch at its level. -/
theorem wellFormed_refresh (h : t.tac ≤ 7) : t.refresh.2.WellFormed := by
  unfold refresh count
  dsimp only
  split_ifs
  · exact ⟨h, rfl⟩
  · exact ⟨h, rfl⟩
  · exact ⟨h, rfl⟩

theorem WellFormed.tick (h : t.WellFormed) : t.tick.2.WellFormed :=
  wellFormed_refresh h.tac_le

theorem WellFormed.advance (h : t.WellFormed) (n : Nat) : (t.advance n).2.WellFormed := by
  induction n generalizing t with
  | zero => exact h
  | succ n ih =>
    have hfirst : Timer.advance (n + 1) t = advanceFrom t.tick.1 n t.tick.2 := rfl
    rw [hfirst, advanceFrom_eq]
    exact ih h.tick

theorem and_seven_le (v : UInt8) : v &&& 0x07 ≤ 7 := by
  rw [UInt8.le_iff_toNat_le, UInt8.toNat_and]
  exact Nat.and_le_right

theorem WellFormed.writeAt (h : t.WellFormed) (a : UInt16) (v : UInt8) :
    (t.writeAt a v).2.WellFormed := by
  unfold Timer.writeAt
  split
  · rename_i r _
    cases r with
    | div => exact wellFormed_refresh h.tac_le
    | tima => exact ⟨h.tac_le, h.latch_eq⟩
    | tma => exact ⟨h.tac_le, h.latch_eq⟩
    | tac => exact wellFormed_refresh (and_seven_le v)
  · exact h

end Timer

end Sm83
