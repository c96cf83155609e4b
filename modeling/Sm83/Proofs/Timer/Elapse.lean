import Sm83.Machine
import Sm83.Proofs.Memory.Devices

/-!
# Time

Clocks pass one after the other: to let some clocks pass and then others is to let all of them pass
at once. In the usual mode they move the divider, and at an overflow of the counter they request the
timer's interrupt. They change nothing else, and no clock withdraws a request, so what is pending
stays pending.

## Main results

* `Timer.advance_add`, `Memory.elapse_add` — clocks pass one after the other.
* `Memory.div_elapse` — the divider counts all clocks.
* `Memory.elapse_eq` — time changes nothing but the timer and the requests.
* `Memory.pending_eq_zero_of_elapse` — time withdraws no request.
-/

namespace Sm83

/-! ### Clocks of the timer -/

namespace Timer

theorem advanceFrom_eq (overflowed : Bool) (n : Nat) (t : Timer) :
    advanceFrom overflowed n t = (overflowed || (advance n t).1, (advance n t).2) := by
  induction n generalizing overflowed t with
  | zero => simp [advance, advanceFrom]
  | succ n ih =>
    have hfirst : advance (n + 1) t = advanceFrom t.tick.1 n t.tick.2 := rfl
    have hall : advanceFrom overflowed (n + 1) t =
      advanceFrom (overflowed || t.tick.1) n t.tick.2 := rfl
    rw [hfirst, hall, ih, ih t.tick.1, Bool.or_assoc]

/-- Clocks pass one after the other, and every overflow on the way counts. -/
theorem advance_add (a b : Nat) (t : Timer) :
    advance (a + b) t = ((advance a t).1 || (advance b (advance a t).2).1,
      (advance b (advance a t).2).2) := by
  rw [advance, advanceFrom_add, advanceFrom_eq _ b]
  rfl

theorem div_advance (n : Nat) (t : Timer) : (advance n t).2.div = t.div + UInt16.ofNat n := by
  induction n generalizing t with
  | zero => simp [advance, advanceFrom]
  | succ n ih =>
    have htick : t.tick.2.div = t.div + 1 := div_refresh _
    have hfirst : advance (n + 1) t = advanceFrom t.tick.1 n t.tick.2 := rfl
    rw [hfirst, advanceFrom_eq, ih, htick, Nat.add_comm n 1, UInt16.ofNat_add, UInt16.add_assoc]
    rfl

end Timer

/-! ### Clocks of the memory -/

theorem Interrupt.request_or (i : Interrupt) (raised raised' : Bool) (requests : UInt8) :
    i.request (raised || raised') requests = i.request raised' (i.request raised requests) := by
  cases raised <;> cases raised' <;> simp [request, UInt8.or_assoc]

theorem Interrupt.toNat_request_and (i : Interrupt) (requests mask : UInt8) :
    (i.request true requests &&& mask).toNat =
      (requests.toNat &&& mask.toNat) ||| (i.mask.toNat &&& mask.toNat) := by
  rw [request, if_pos rfl, UInt8.toNat_and, UInt8.toNat_or, Nat.and_or_distrib_right]

/-- A request sets bits and clears none. -/
theorem Interrupt.and_eq_zero_of_request {i : Interrupt} {raised : Bool} {requests mask : UInt8}
    (h : i.request raised requests &&& mask = 0) : requests &&& mask = 0 := by
  cases raised with
  | false => exact h
  | true =>
    have hnat := congrArg UInt8.toNat h
    rw [toNat_request_and] at hnat
    apply UInt8.toNat_inj.mp
    rw [UInt8.toNat_and]
    exact (Nat.or_eq_zero_iff.mp hnat).1

namespace Memory

variable {m : Memory}

theorem elapse_of_isFlat (hmode : m.isFlat = true) (n : Nat) : m.elapse n = m := by
  simp only [elapse, hmode, if_true]

theorem elapse_of_not_isFlat (hmode : m.isFlat = false) (n : Nat) :
    m.elapse n = { m with
      timer := (m.timer.advance n).2
      requests := Interrupt.timer.request (m.timer.advance n).1 m.requests } := by
  simp only [elapse, hmode, Bool.false_eq_true, if_false]

theorem isFlat_elapse (m : Memory) (n : Nat) : (m.elapse n).isFlat = m.isFlat := by
  unfold elapse
  split_ifs <;> rfl

/-- Time changes nothing but the timer and the requests. -/
theorem elapse_eq (m : Memory) (n : Nat) :
    m.elapse n = { m with timer := (m.elapse n).timer, requests := (m.elapse n).requests } := by
  unfold elapse
  split_ifs <;> rfl

theorem elapse_zero (m : Memory) : m.elapse 0 = m := by
  unfold elapse
  split_ifs <;> rfl

theorem elapse_add (m : Memory) (a b : Nat) : m.elapse (a + b) = (m.elapse a).elapse b := by
  cases hmode : m.isFlat with
  | true => simp only [elapse_of_isFlat hmode]
  | false =>
    rw [elapse_of_not_isFlat ((m.isFlat_elapse a).trans hmode), elapse_of_not_isFlat hmode,
      elapse_of_not_isFlat hmode, Timer.advance_add, Interrupt.request_or]

theorem div_elapse (hmode : m.isFlat = false) (n : Nat) :
    (m.elapse n).timer.div = m.timer.div + UInt16.ofNat n := by
  rw [elapse_of_not_isFlat hmode]
  exact Timer.div_advance n m.timer

/-- Time withdraws no request: if nothing is pending afterwards, nothing was. -/
theorem pending_eq_zero_of_elapse {n : Nat} (h : Bus.pending (m.elapse n) = 0) :
    Bus.pending m = 0 := by
  cases hmode : m.isFlat with
  | true => rwa [elapse_of_isFlat hmode] at h
  | false =>
    rw [elapse_of_not_isFlat hmode, pending_eq, UInt8.and_assoc] at h
    rw [pending_eq, UInt8.and_assoc]
    exact Interrupt.and_eq_zero_of_request h

end Memory

end Sm83
