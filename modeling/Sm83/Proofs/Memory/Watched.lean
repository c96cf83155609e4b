import Sm83.Proofs.Timer.Elapse

/-!
# Watched devices

An observer beside the memory looks at the timer and at the serial link after every write and every
clock. It notes whether the counter overflowed and whether a transfer was completed, but has no part
in what happens. What it notes accounts for every request that the devices make: as long as nothing
is written to `IF` itself, the requests are those of before, with the timer's bit set if an overflow
was seen, and the serial link's bit if a transfer was.

## Main definitions

* `Timer.overflows`, `Serial.completes` — what is seen of an overflow and of a transfer.
* `Watched` — a memory with what was seen of its devices.
* `Watched.Accounts` — what was seen accounts for the requests.

## Main results

* `Watched.step_eq` — the processor's steps on a watched memory are those on the memory.
* `Watched.memory_elapse` — clocks on a watched memory are those on the memory.
* `Watched.accounts_invariant`, `Watched.Accounts.elapse` — accesses and clocks are accounted for.
-/

namespace Sm83

/-! ### What can be seen -/

/-- Whether the counter overflowed from one look at the timer to the next: it was full, and the
signal fell. -/
def Timer.overflows (before after : Timer) : Bool :=
  before.tima == 0xFF && before.latch && !after.latch

/-- Whether a transfer was completed from one look at the serial link to the next: more bytes were
sent. -/
def Serial.completes (before after : Serial) : Bool :=
  decide (before.sent.size < after.sent.size)

namespace Timer

theorem overflows_self (t : Timer) : t.overflows t = false := by
  simp [overflows]

theorem fst_refresh (t : Timer) : t.refresh.1 = t.overflows t.refresh.2 := by
  have hfull : (t.tima == 0xFF) = decide (t.tima = 255) := rfl
  simp only [refresh, count, overflows, hfull]
  cases t.latch <;> cases signal t.div t.tac <;> by_cases htima : t.tima = 255 <;> simp [htima]

/-- A write reports an overflow if one can be seen. -/
theorem fst_writeAt (t : Timer) (a : UInt16) (v : UInt8) :
    (t.writeAt a v).1 = t.overflows (t.writeAt a v).2 := by
  unfold writeAt
  cases Register.ofAddress? a with
  | none => exact t.overflows_self.symm
  | some r =>
    cases r with
    | div | tac => exact fst_refresh _
    | tima | tma => simp [write, overflows]

/-- A clock reports an overflow if one can be seen. -/
theorem fst_advance_one (t : Timer) : (t.advance 1).1 = t.overflows (t.advance 1).2 := by
  have hone : t.advance 1 = (false || t.tick.1, t.tick.2) := rfl
  rw [hone, Bool.false_or]
  exact fst_refresh _

end Timer

namespace Serial

theorem completes_self (s : Serial) : s.completes s = false := by
  simp [completes]

/-- A write reports a transfer if one can be seen. -/
theorem fst_writeAt (s : Serial) (a : UInt16) (v : UInt8) :
    (s.writeAt a v).1 = s.completes (s.writeAt a v).2 := by
  unfold writeAt
  cases Register.ofAddress? a with
  | none => exact s.completes_self.symm
  | some r =>
    cases r with
    | sb => simp [write, completes]
    | sc =>
      simp only [write]
      split_ifs <;> simp [completes]

end Serial

theorem Interrupt.request_comm (i i' : Interrupt) (raised raised' : Bool) (requests : UInt8) :
    i.request raised (i'.request raised' requests) =
      i'.request raised' (i.request raised requests) := by
  cases raised <;> cases raised' <;> simp [request, UInt8.or_assoc, UInt8.or_comm i.mask]

/-! ### Watched memories -/

/-- A memory with what an observer saw of its devices. -/
structure Watched where
  memory : Memory
  /-- The counter of the timer overflowed. -/
  overflowed : Bool := false
  /-- The serial link completed a transfer. -/
  transferred : Bool := false

namespace Watched

/-- The observer looks at the memory that follows. -/
def next (w : Watched) (after : Memory) : Watched where
  memory := after
  overflowed := w.overflowed || w.memory.timer.overflows after.timer
  transferred := w.transferred || w.memory.serial.completes after.serial

instance : Bus Watched where
  read a w := (w.memory.read8 a, w)
  write a v w := w.next (w.memory.write8 a v)
  pending w := Bus.pending w.memory
  acknowledge i w := { w with memory := Bus.acknowledge i w.memory }

/-- Clocks pass one by one, and the observer looks after each. -/
def elapse (w : Watched) : (clocks : Nat) → Watched
  | 0 => w
  | clocks + 1 => (w.next (w.memory.elapse 1)).elapse clocks

/-- Clocks on a watched memory are those on the memory. -/
theorem memory_elapse (w : Watched) (n : Nat) : (w.elapse n).memory = w.memory.elapse n := by
  induction n generalizing w with
  | zero => exact w.memory.elapse_zero.symm
  | succ n ih =>
    rw [elapse, ih, Nat.add_comm n 1, Memory.elapse_add]
    rfl

/-- The processor cannot tell a watched memory from the memory. -/
theorem simulation : Bus.Simulation Set.univ fun (w : Watched) (m : Memory) => w.memory = m := by
  refine ⟨?_, ?_, fun _ => ?_, ?_⟩
  · rintro w _ a rfl -
    rfl
  · rintro w _ a rfl -
    rfl
  · rintro rfl -
    rfl
  · rintro w _ rfl
    rfl

/-- The processor's steps on a watched memory are those on the memory. -/
theorem step_eq (c : Cpu) (w : Watched) :
    (c.step w).1 = (c.step w.memory).1 ∧ (c.step w).2.1 = (c.step w.memory).2.1 ∧
      (c.step w).2.2.memory = (c.step w.memory).2.2 ∧ c.accesses w = c.accesses w.memory :=
  simulation.step rfl fun _ _ => trivial

/-! ### Requests -/

/-- The requests that the devices make of given ones by what was seen. -/
def raised (w : Watched) (requests : UInt8) : UInt8 :=
  Interrupt.timer.request w.overflowed (Interrupt.serial.request w.transferred requests)

theorem raised_next (w : Watched) (after : Memory) (requests : UInt8) :
    (w.next after).raised requests =
      Interrupt.timer.request (w.memory.timer.overflows after.timer)
        (Interrupt.serial.request (w.memory.serial.completes after.serial)
          (w.raised requests)) := by
  simp only [raised, next, Interrupt.request_or]
  rw [Interrupt.request_comm .serial .timer _ w.overflowed]

/-- What was seen accounts for the requests: unless `IF` was written to, they are the given ones and
those that the devices made. -/
structure Accounts (requests : UInt8) (j : Journal Watched) : Prop where
  isFlat_eq : j.bus.memory.isFlat = false
  requests_eq : Access.write 0xFF0F ∉ j.accesses → j.bus.memory.requests = j.bus.raised requests

/-- Accesses are accounted for. -/
theorem accounts_invariant (requests : UInt8) : Bus.Invariant (Accounts requests) where
  read a h := ⟨h.isFlat_eq, fun hwrite => h.requests_eq fun hmem =>
    hwrite (List.mem_append_left _ hmem)⟩
  write {j} a v h := by
    refine ⟨(j.bus.memory.isFlat_write8 a v).trans h.isFlat_eq, fun hwrite => ?_⟩
    obtain ⟨hbefore, hown⟩ := not_or.mp (mt List.mem_append.mpr hwrite)
    have ha : a ≠ 0xFF0F := by
      rintro rfl
      exact hown (List.mem_singleton_self _)
    have htimer : (j.bus.memory.write8 a v).timer = (j.bus.memory.timer.writeAt a v).2 := by
      rw [Memory.timer_write8, h.isFlat_eq, if_neg Bool.false_ne_true]
    have hserial := Memory.serial_write8 h.isFlat_eq a v
    calc (j.bus.memory.write8 a v).requests
      _ = Interrupt.timer.request (j.bus.memory.timer.writeAt a v).1
          (Interrupt.serial.request (j.bus.memory.serial.writeAt a v).1
            j.bus.memory.requests) := by
        rw [Memory.requests_write8 h.isFlat_eq, if_neg ha]
      _ = (j.bus.next (j.bus.memory.write8 a v)).raised requests := by
        rw [raised_next, htimer, hserial, ← Timer.fst_writeAt, ← Serial.fst_writeAt,
          ← h.requests_eq hbefore]

/-- Clocks are accounted for. -/
theorem Accounts.elapse {requests : UInt8} {j : Journal Watched} (h : Accounts requests j)
    (n : Nat) : Accounts requests { j with bus := j.bus.elapse n } := by
  induction n generalizing j with
  | zero => exact h
  | succ n ih =>
    refine ih (j := { j with bus := j.bus.next (j.bus.memory.elapse 1) })
      ⟨(j.bus.memory.isFlat_elapse 1).trans h.isFlat_eq, fun hwrite => ?_⟩
    change (j.bus.memory.elapse 1).requests = (j.bus.next (j.bus.memory.elapse 1)).raised requests
    rw [raised_next, ← h.requests_eq hwrite, Memory.elapse_of_not_isFlat h.isFlat_eq]
    simp only [← Timer.fst_advance_one, Serial.completes_self, Interrupt.request,
      Bool.false_eq_true, if_false]

end Watched

end Sm83
