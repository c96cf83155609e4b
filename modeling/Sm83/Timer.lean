import Sm83.Word

/-!
# The timer

A 16-bit divider counts every clock; its upper byte is the register `DIV`.  One bit of the
divider, chosen by the control register `TAC` and gated by its enable bit, is the timer's
signal, and `TIMA` counts the falling edges of that signal.  The level before is kept in a
latch, so that writes of `DIV` and `TAC` can produce an edge as well.

## Main definitions

* `Timer` — the registers and the latch.
* `Timer.signal` — the level of the signal for a divider and a control byte.
* `Timer.tick`, `Timer.advance` — one clock and several.
* `Timer.Register`, `Timer.read`, `Timer.write` — access by the processor.

Operations that can make `TIMA` overflow return whether it did, beside the timer.
-/

namespace Sm83

/-- The state of the timer. -/
structure Timer where
  /-- The divider, of which `DIV` is the upper byte. -/
  div : UInt16 := 0
  /-- The counter. -/
  tima : UInt8 := 0
  /-- The value from which the counter restarts after an overflow. -/
  tma : UInt8 := 0
  /-- The control register: the enable bit 2 and the rate in bits 0 and 1. -/
  tac : UInt8 := 0
  /-- The level of the signal when it was last looked at. -/
  latch : Bool := false
  deriving DecidableEq, Repr

namespace Timer

/-- The registers through which the processor reaches the timer. -/
inductive Register where
  | div | tima | tma | tac
  deriving DecidableEq, Repr

/-- The clocks from one falling edge of the signal to the next. -/
def period (tac : UInt8) : Nat :=
  match tac.toNat % 4 with
  | 0 => 1024
  | 1 => 16
  | 2 => 64
  | _ => 256

/-- Whether a control byte lets the timer count. -/
def enabled (tac : UInt8) : Bool :=
  tac.toNat / 4 % 2 == 1

/-- The level of the signal: high in the second half of each period while the timer is
enabled. -/
def signal (div : UInt16) (tac : UInt8) : Bool :=
  enabled tac && decide (period tac / 2 ≤ div.toNat % period tac)

/-- Count one falling edge.  An overflow restarts the counter from `TMA` and is reported. -/
def count (t : Timer) : Bool × Timer :=
  if t.tima = 255 then (true, { t with tima := t.tma }) else (false, { t with tima := t.tima + 1 })

/-- Look at the signal again: a falling edge since the last look is counted. -/
@[inline] def refresh (t : Timer) : Bool × Timer :=
  let level := signal t.div t.tac
  if t.latch && !level then
    let (overflow, t) := t.count
    (overflow, { t with latch := level })
  else
    (false, { t with latch := level })

/-- Advance the divider by one clock. -/
@[inline] def tick (t : Timer) : Bool × Timer :=
  { t with div := t.div + 1 }.refresh

/-- Advance by a number of clocks; `overflowed` tells of overflows so far. -/
def advanceFrom (overflowed : Bool) : (clocks : Nat) → Timer → Bool × Timer
  | 0, t => (overflowed, t)
  | clocks + 1, t =>
    let (overflow, t) := t.tick
    advanceFrom (overflowed || overflow) clocks t

/-- Advance by a number of clocks, and report whether the counter overflowed on the way. -/
def advance (clocks : Nat) (t : Timer) : Bool × Timer :=
  advanceFrom false clocks t

/-- What the processor reads from a register.  The unused bits of `TAC` read as ones. -/
def read (t : Timer) : Register → UInt8
  | .div => highByte t.div
  | .tima => t.tima
  | .tma => t.tma
  | .tac => t.tac ||| 0xF8

/-- What a write by the processor does.  Any value written to `DIV` clears the whole divider,
and of `TAC` only the lower three bits are kept. -/
def write (t : Timer) (reg : Register) (v : UInt8) : Bool × Timer :=
  match reg with
  | .div => { t with div := 0 }.refresh
  | .tima => (false, { t with tima := v })
  | .tma => (false, { t with tma := v })
  | .tac => { t with tac := v &&& 0x07 }.refresh

/-- The register at an address. -/
def Register.ofAddress? (addr : UInt16) : Option Register :=
  match addr with
  | 0xFF04 => some .div
  | 0xFF05 => some .tima
  | 0xFF06 => some .tma
  | 0xFF07 => some .tac
  | _ => none

/-- What is read at an address; all ones where there is no register of the timer. -/
def readAt (t : Timer) (addr : UInt16) : UInt8 :=
  (Register.ofAddress? addr).elim 0xFF t.read

/-- What a write at an address does; nothing where there is no register of the timer. -/
def writeAt (t : Timer) (addr : UInt16) (v : UInt8) : Bool × Timer :=
  match Register.ofAddress? addr with
  | some r => t.write r v
  | none => (false, t)

/-- Clocks pass one after the other. -/
theorem advanceFrom_add (overflowed : Bool) (m n : Nat) (t : Timer) :
    advanceFrom overflowed (m + n) t =
      advanceFrom (advanceFrom overflowed m t).1 n (advanceFrom overflowed m t).2 := by
  induction m generalizing overflowed t with
  | zero => simp [advanceFrom]
  | succ m ih =>
    rw [Nat.succ_add]
    exact ih _ _

end Timer

end Sm83
