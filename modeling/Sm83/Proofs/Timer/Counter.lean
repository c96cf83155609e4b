import Mathlib.Tactic.SplitIfs
import Sm83.Proofs.Timer.Signal

/-!
# The counter of the timer

The divider of an enabled timer meets a multiple of the period every time the signal falls, and
nowhere else: the signal is high in the second half of each period. So the falling edges that come
with some clocks are the multiples of the period that the divider passes. The counter counts them up
to 255, and from the first overflow on it goes round from the restart value to 255. Together this
computes the state of the timer after any number of clocks at once.

## Main definitions

* `Timer.edges` — the falling edges that come with some clocks.
* `Timer.counted` — the counter after some falling edges.
* `Timer.pass` — clocks of the timer, with the requests of interrupts beside it.

## Main results

* `Timer.tick_eq` — one clock.
* `Timer.advance_eq` — any number of clocks.
* `timer_after_clocks` — the same by registers, and clocks in two parts.
-/

namespace Sm83

namespace Timer

/-! ### Falling edges -/

/-- The period is one of four, and the divider wraps around at a multiple of each. -/
theorem period_cases (tac : UInt8) :
    period tac = 16 ∨ period tac = 64 ∨ period tac = 256 ∨ period tac = 1024 := by
  unfold period
  split
  · exact .inr (.inr (.inr rfl))
  · exact .inl rfl
  · exact .inr (.inl rfl)
  · exact .inr (.inr (.inl rfl))

/-- The periods by the lowest two bits of the control register. -/
theorem getD_eq_period (tac : UInt8) :
    [1024, 16, 64, 256].getD (tac.toNat % 4) 0 = period tac := by
  have hrate : tac.toNat % 4 < 4 := Nat.mod_lt _ (by decide)
  unfold period
  generalize tac.toNat % 4 = rate at hrate
  match rate with
  | 0 | 1 | 2 | 3 => rfl
  | _ + 4 => omega

/-- With the next clock the signal falls exactly if the divider comes to a multiple of the
period. -/
theorem falls_iff (div : UInt16) (tac : UInt8) :
    (signal div tac && !signal (div + 1) tac) = true ↔
      enabled tac = true ∧ period tac ∣ div.toNat + 1 := by
  have hdiv := div.toNat_lt
  have hnext : (div + 1).toNat = (div.toNat + 1) % 65536 := by
    rw [UInt16.toNat_add]
    rfl
  simp only [signal, hnext, Bool.and_eq_true, Bool.not_eq_true', Bool.and_eq_false_iff,
    decide_eq_true_eq, decide_eq_false_iff_not]
  cases henabled : enabled tac with
  | false => simp
  | true =>
    simp only [true_and, Bool.true_eq_false, false_or]
    rcases period_cases tac with hP | hP | hP | hP <;> rw [hP] <;> omega

/-- The falling edges of the signal that come with the next `n` clocks. -/
def edges (t : Timer) (n : Nat) : Nat :=
  if enabled t.tac then (t.div.toNat + n) / period t.tac - t.div.toNat / period t.tac else 0

theorem edges_zero (t : Timer) : t.edges 0 = 0 := by
  simp [edges]

/-- The last of `n + 1` clocks brings a falling edge if it takes the divider to a multiple of the
period. -/
theorem edges_succ (t : Timer) (n : Nat) :
    t.edges (n + 1) = t.edges n +
      if enabled t.tac = true ∧ period t.tac ∣ t.div.toNat + n + 1 then 1 else 0 := by
  unfold edges
  cases enabled t.tac with
  | false => simp
  | true =>
    have hle : t.div.toNat / period t.tac ≤ (t.div.toNat + n) / period t.tac :=
      Nat.div_le_div_right (Nat.le_add_right _ _)
    simp only [if_true, true_and, ← Nat.add_assoc, Nat.succ_div]
    omega

/-! ### The counter -/

/-- A counter after `k` falling edges: it counts up to 255, and from the first overflow on it goes
round from the restart value to 255. -/
def counted (tima tma k : Nat) : Nat :=
  if k < 256 - tima then tima + k else tma + (k - (256 - tima)) % (256 - tma)

section Counted

variable {tima tma k : Nat}

theorem counted_of_lt (h : k < 256 - tima) : counted tima tma k = tima + k :=
  if_pos h

theorem counted_of_le (h : 256 - tima ≤ k) :
    counted tima tma k = tma + (k - (256 - tima)) % (256 - tma) :=
  if_neg (Nat.not_lt.mpr h)

theorem counted_lt (htma : tma < 256) (k : Nat) : counted tima tma k < 256 := by
  rcases Nat.lt_or_ge k (256 - tima) with hbefore | hafter
  · rw [counted_of_lt hbefore]
    omega
  · have hround : (k - (256 - tima)) % (256 - tma) < 256 - tma := Nat.mod_lt _ (by omega)
    rw [counted_of_le hafter]
    omega

/-- One more falling edge: after 255 the counter restarts. -/
theorem counted_succ (htima : tima < 256) (htma : tma < 256) (k : Nat) :
    counted tima tma (k + 1) =
      if counted tima tma k = 255 then tma else counted tima tma k + 1 := by
  rcases Nat.lt_trichotomy (k + 1) (256 - tima) with hbefore | hfirst | hafter
  · rw [counted_of_lt hbefore, counted_of_lt (by omega), if_neg (by omega), Nat.add_assoc]
  · -- the first overflow
    rw [counted_of_le (by omega), counted_of_lt (by omega), if_pos (by omega), hfirst, Nat.sub_self,
      Nat.zero_mod, Nat.add_zero]
  · have hstep : k + 1 - (256 - tima) = k - (256 - tima) + 1 := by omega
    rw [counted_of_le (by omega), counted_of_le (by omega), hstep, ← Nat.mod_add_mod]
    have hround : (k - (256 - tima)) % (256 - tma) < 256 - tma := Nat.mod_lt _ (by omega)
    generalize (k - (256 - tima)) % (256 - tma) = place at hround
    rcases Nat.lt_or_ge (place + 1) (256 - tma) with hinside | hend
    · rw [Nat.mod_eq_of_lt hinside, if_neg (by omega), Nat.add_assoc]
    · have hlast : place + 1 = 256 - tma := by omega
      rw [hlast, Nat.mod_self, if_pos (by omega), Nat.add_zero]

/-- The first overflow comes with the falling edge that finds the counter at 255. -/
theorem le_succ_iff_of_counted :
    256 - tima ≤ k + 1 ↔ 256 - tima ≤ k ∨ counted tima tma k = 255 := by
  rcases Nat.lt_or_ge k (256 - tima) with hbefore | hafter
  · rw [counted_of_lt hbefore]
    omega
  · exact iff_of_true (Nat.le_succ_of_le hafter) (.inl hafter)

/-- A byte holds what was counted. -/
theorem toNat_ofNat_counted (tima tma : UInt8) (k : Nat) :
    (UInt8.ofNat (counted tima.toNat tma.toNat k)).toNat = counted tima.toNat tma.toNat k :=
  UInt8.toNat_ofNat_of_lt' (counted_lt tma.toNat_lt k)

theorem ofNat_counted_eq_iff (tima tma : UInt8) (k : Nat) :
    UInt8.ofNat (counted tima.toNat tma.toNat k) = 255 ↔ counted tima.toNat tma.toNat k = 255 := by
  rw [← UInt8.toNat_inj, toNat_ofNat_counted]
  rfl

end Counted

/-! ### Clocks -/

/-- To look at the signal again counts a falling edge, and reports an overflow. -/
theorem refresh_eq (t : Timer) :
    t.refresh =
      if (t.latch && !signal t.div t.tac) = true then
        (decide (t.tima = 255), { t with
          tima := if t.tima = 255 then t.tma else t.tima + 1
          latch := signal t.div t.tac })
      else (false, { t with latch := signal t.div t.tac }) := by
  unfold refresh count
  by_cases hfull : t.tima = 255
  · simp only [hfull, if_true, decide_true]
  · simp only [hfull, if_false, decide_false]

/-- While the latch is the present level, a clock counts if it takes the divider to a multiple of
the period. -/
theorem tick_eq {t : Timer} (hlatch : t.latch = signal t.div t.tac) :
    t.tick =
      if enabled t.tac = true ∧ period t.tac ∣ t.div.toNat + 1 then
        (decide (t.tima = 255), { t with
          div := t.div + 1
          tima := if t.tima = 255 then t.tma else t.tima + 1
          latch := signal (t.div + 1) t.tac })
      else (false, { t with div := t.div + 1, latch := signal (t.div + 1) t.tac }) := by
  have hfalls := falls_iff t.div t.tac
  rw [tick, refresh_eq]
  simp only [hlatch, hfalls]

/-- The divider wraps around at a multiple of the period. -/
theorem period_dvd_iff (div : UInt16) (tac : UInt8) (n : Nat) :
    period tac ∣ (div + UInt16.ofNat n).toNat + 1 ↔ period tac ∣ div.toNat + n + 1 := by
  have hwrap : (div + UInt16.ofNat n).toNat = (div.toNat + n) % 65536 := by
    rw [UInt16.toNat_add, UInt16.toNat_ofNat']
    exact Nat.add_mod_mod _ _ _
  rw [hwrap]
  rcases period_cases tac with hP | hP | hP | hP <;> rw [hP] <;> omega

/-- **The timer after any number of clocks.** The counter has counted the falling edges that came
with the clocks, and there was an overflow if there were enough of them to take it past 255. -/
theorem advance_eq {t : Timer} (hlatch : t.latch = signal t.div t.tac) (n : Nat) :
    t.advance n = (decide (256 - t.tima.toNat ≤ t.edges n), { t with
      div := t.div + UInt16.ofNat n
      tima := UInt8.ofNat (counted t.tima.toNat t.tma.toNat (t.edges n))
      latch := signal (t.div + UInt16.ofNat n) t.tac }) := by
  have htima := t.tima.toNat_lt
  have htma := t.tma.toNat_lt
  induction n with
  | zero =>
    have hroom : 0 < 256 - t.tima.toNat := by omega
    simp [advance, advanceFrom, edges_zero, counted_of_lt hroom, Nat.ne_of_gt hroom, ← hlatch]
  | succ n ih =>
    have hone (u : Timer) : u.advance 1 = u.tick := by simp [advance, advanceFrom]
    have hdiv : t.div + UInt16.ofNat (n + 1) = t.div + UInt16.ofNat n + 1 := by
      rw [UInt16.ofNat_add, UInt16.add_assoc]
      rfl
    rw [advance_add, hone, ih, tick_eq rfl, hdiv]
    simp only [period_dvd_iff, edges_succ, ofNat_counted_eq_iff]
    by_cases hedge : enabled t.tac = true ∧ period t.tac ∣ t.div.toNat + n + 1
    · have hoverflow : decide (256 - t.tima.toNat ≤ t.edges n + 1) =
          (decide (256 - t.tima.toNat ≤ t.edges n) ||
            decide (counted t.tima.toNat t.tma.toNat (t.edges n) = 255)) := by
        rw [← Bool.decide_or]
        exact decide_eq_decide.mpr le_succ_iff_of_counted
      simp only [if_pos hedge, hoverflow, counted_succ htima htma]
      split_ifs
      · rw [UInt8.ofNat_toNat]
      · rw [UInt8.ofNat_add]
        rfl
    · simp only [if_neg hedge, Bool.or_false, Nat.add_zero]

/-! ### The requests of interrupts -/

/-- Clocks of a timer that has the requests of interrupts beside it. -/
def pass (n : Nat) (s : Timer × UInt8) : Timer × UInt8 :=
  ((s.1.advance n).2, Interrupt.timer.request (s.1.advance n).1 s.2)

/-- Clocks pass one after the other, for the requests as well. -/
theorem pass_add (m n : Nat) (s : Timer × UInt8) : pass (m + n) s = pass n (pass m s) := by
  unfold pass
  rw [advance_add, Interrupt.request_or]

end Timer

/-- **The timer after clocks.** Let the latch of a timer be the present level of its signal, and let
`n` clocks pass. The divider has gone on by `n`, the restart value and the control register are as
before, and the latch is again the level of the signal. If the timer is switched off, the counter
and the requests are as before. If it is on, with a period of `P` clocks, the divider has met `k`
multiples of `P` on the way. As long as these do not fill the counter, they are added to it and
nothing is requested; if they do, the timer's interrupt is requested, and the counter has gone round
from the restart value with the rest of them. So clocks may pass in parts or at once. -/
theorem timer_after_clocks (t : Timer) (hlatch : t.latch = Timer.signal t.div t.tac)
    (requests : UInt8) (n : Nat) :
    let t' := (Timer.pass n (t, requests)).1
    let requests' := (Timer.pass n (t, requests)).2
    let P := [1024, 16, 64, 256].getD (t.tac.toNat % 4) 0
    let k := (t.div.toNat + n) / P - t.div.toNat / P
    t'.div = t.div + UInt16.ofNat n ∧ t'.tma = t.tma ∧ t'.tac = t.tac ∧
    (t.tac.toNat.testBit 2 = false → t'.tima = t.tima ∧ requests' = requests) ∧
    (t.tac.toNat.testBit 2 = true →
      (k < 256 - t.tima.toNat → t'.tima.toNat = t.tima.toNat + k ∧ requests' = requests) ∧
      (256 - t.tima.toNat ≤ k →
        t'.tima.toNat = t.tma.toNat + (k - (256 - t.tima.toNat)) % (256 - t.tma.toNat) ∧
          requests' = requests ||| 0x04)) ∧
    t'.latch = Timer.signal t'.div t'.tac ∧
    ∀ m, Timer.pass m (t', requests') = Timer.pass (n + m) (t, requests) := by
  intro t' requests' P k
  have htimer : t' = { t with
      div := t.div + UInt16.ofNat n
      tima := UInt8.ofNat (Timer.counted t.tima.toNat t.tma.toNat (t.edges n))
      latch := Timer.signal (t.div + UInt16.ofNat n) t.tac } :=
    congrArg Prod.snd (Timer.advance_eq hlatch n)
  have hrequests : requests' =
      Interrupt.timer.request (decide (256 - t.tima.toNat ≤ t.edges n)) requests :=
    congrArg (fun r => Interrupt.timer.request r requests)
      (congrArg Prod.fst (Timer.advance_eq hlatch n))
  have hcounter : t'.tima.toNat = Timer.counted t.tima.toNat t.tma.toNat (t.edges n) := by
    rw [htimer]
    exact Timer.toNat_ofNat_counted _ _ _
  have hedges (hon : t.tac.toNat.testBit 2 = true) : t.edges n = k := by
    rw [Timer.edges, Timer.enabled_eq_testBit, if_pos hon, ← Timer.getD_eq_period]
  have hroom : 0 < 256 - t.tima.toNat := Nat.sub_pos_of_lt t.tima.toNat_lt
  refine ⟨by rw [htimer], by rw [htimer], by rw [htimer], fun hoff => ?_, fun hon => ⟨fun hk => ?_,
    fun hk => ?_⟩, by rw [htimer], fun m => (Timer.pass_add n m (t, requests)).symm⟩
  · have hnone : t.edges n = 0 := if_neg (by rw [Timer.enabled_eq_testBit, hoff]; decide)
    rw [hnone, Timer.counted_of_lt hroom, Nat.add_zero] at hcounter
    exact ⟨UInt8.toNat_inj.mp hcounter, by
      rw [hrequests, hnone, decide_eq_false (Nat.not_le.mpr hroom)]
      rfl⟩
  · rw [hedges hon, Timer.counted_of_lt hk] at hcounter
    exact ⟨hcounter, by
      rw [hrequests, hedges hon, decide_eq_false (Nat.not_le.mpr hk)]
      rfl⟩
  · rw [hedges hon, Timer.counted_of_le hk] at hcounter
    exact ⟨hcounter, by
      rw [hrequests, hedges hon, decide_eq_true hk]
      rfl⟩

/-- A timer with a period of 16 clocks and the counter two steps below its end. In 40 clocks the
divider wraps around and meets three multiples of 16; the counter restarts at the second one and has
counted the third. -/
theorem timer_restarts_across_wrap :
    let t : Timer := { div := 0xFFF8, tima := 0xFE, tma := 0xF0, tac := 0x05, latch := true }
    let t' := (Timer.pass 40 (t, 0x00)).1
    t.latch = Timer.signal t.div t.tac ∧ t.tac.toNat.testBit 2 = true ∧
      256 - t.tima.toNat ≤ (t.div.toNat + 40) / 16 - t.div.toNat / 16 ∧
      t'.div = 0x0020 ∧ t'.tima.toNat = 0xF1 ∧ (Timer.pass 40 (t, 0x00)).2 = 0x04 := by
  intro t t'
  have hlatch : t.latch = Timer.signal t.div t.tac := by decide
  have hon : t.tac.toNat.testBit 2 = true := by decide
  have hk : 256 - t.tima.toNat ≤ (t.div.toNat + 40) / 16 - t.div.toNat / 16 := by decide
  obtain ⟨hdiv, -, -, -, hcount, -⟩ := timer_after_clocks t hlatch 0x00 40
  obtain ⟨htima, hrequests⟩ := (hcount hon).2 (by decide)
  exact ⟨hlatch, hon, hk, hdiv.trans (by decide), htima.trans (by decide), hrequests⟩

end Sm83
