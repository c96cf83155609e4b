import Mathlib.Logic.Function.Iterate
import Sm83.Proofs.Timer.Counter

/-!
# Falling edges without a latch

A timer could do without its latch and compare the signal from before a change with the signal from
after it: at a write to `DIV`, at a write to `TAC` and at every clock, and only there, the divider
or the control register changes. Since the latch is the present level between any two operations,
the timer and one without a latch cannot be told apart. So every falling edge is counted once, also
where a write makes the signal fall, and nothing else is counted.

## Main definitions

* `Timer.gatedBit` — the selected bit of a divider, and the enable bit.
* `EdgeCounter` — a timer without a latch.
* `Timer.Action`, `Timer.Action.perform`, `Timer.Action.count` — what is done with a timer, and with
  one without a latch.

## Main results

* `EdgeCounter.ofTimer_refresh` — one look at the signal is one comparison.
* `EdgeCounter.ofTimer_perform`, `EdgeCounter.ofTimer_performAll` — any actions on both.
* `timer_counts_falling_edges` — the same by registers, and what a single write counts.
-/

namespace Sm83

/-- The bit of a divider that a control byte selects, and its enable bit. -/
def Timer.gatedBit (div : UInt16) (tac : UInt8) : Bool :=
  tac.toNat.testBit 2 && div.toNat.testBit (Timer.selectedBit tac)

/-! ### A timer without a latch -/

/-- A timer without a latch, with the requests of interrupts. -/
structure EdgeCounter where
  div : UInt16 := 0
  tima : UInt8 := 0
  tma : UInt8 := 0
  tac : UInt8 := 0
  requests : UInt8 := 0
  deriving DecidableEq, Repr

namespace EdgeCounter

/-- One increment of the counter. An overflow restarts it and requests the timer's interrupt. -/
def increment (c : EdgeCounter) : EdgeCounter :=
  if c.tima = 0xFF then { c with tima := c.tma, requests := c.requests ||| 0x04 }
  else { c with tima := c.tima + 1 }

/-- The divider and the control register take new values. If the signal was high before and is low
afterwards, the counter makes one increment. -/
def change (c : EdgeCounter) (div : UInt16) (tac : UInt8) : EdgeCounter :=
  let changed := { c with div := div, tac := tac }
  if Timer.gatedBit c.div c.tac = true ∧ Timer.gatedBit div tac = false then changed.increment
  else changed

theorem change_of_falls {c : EdgeCounter} {div : UInt16} {tac : UInt8}
    (h : Timer.gatedBit c.div c.tac = true ∧ Timer.gatedBit div tac = false) :
    c.change div tac = { c with div := div, tac := tac }.increment :=
  if_pos h

theorem change_of_not_falls {c : EdgeCounter} {div : UInt16} {tac : UInt8}
    (h : ¬(Timer.gatedBit c.div c.tac = true ∧ Timer.gatedBit div tac = false)) :
    c.change div tac = { c with div := div, tac := tac } :=
  if_neg h

/-- What a change does, by registers: at most one increment, and that only if the signal fell. -/
theorem registers_change (c : EdgeCounter) (div : UInt16) (tac : UInt8) :
    let c' := c.change div tac
    let falls := Timer.gatedBit c.div c.tac = true ∧ Timer.gatedBit c'.div c'.tac = false
    c'.div = div ∧ c'.tac = tac ∧ c'.tma = c.tma ∧
      (falls → c'.tima = (if c.tima = 0xFF then c.tma else c.tima + 1) ∧
        c'.requests = if c.tima = 0xFF then c.requests ||| 0x04 else c.requests) ∧
      (¬falls → c'.tima = c.tima ∧ c'.requests = c.requests) := by
  intro c' falls
  by_cases h : Timer.gatedBit c.div c.tac = true ∧ Timer.gatedBit div tac = false
  · have hc' : c' = { c with div := div, tac := tac }.increment := change_of_falls h
    rw [increment] at hc'
    by_cases hfull : c.tima = 0xFF
    · rw [if_pos hfull] at hc'
      simp [falls, hc', h, hfull]
    · rw [if_neg hfull] at hc'
      simp [falls, hc', h, hfull]
  · have hc' : c' = { c with div := div, tac := tac } := change_of_not_falls h
    simp only [falls, hc', h, false_imp_iff, not_false_eq_true, true_imp_iff, and_self]

/-- One clock. -/
def clock (c : EdgeCounter) : EdgeCounter :=
  c.change (c.div + 1) c.tac

/-- A write by the processor. -/
def writeAt (c : EdgeCounter) (a : UInt16) (v : UInt8) : EdgeCounter :=
  match Timer.Register.ofAddress? a with
  | some .div => c.change 0 c.tac
  | some .tima => { c with tima := v }
  | some .tma => { c with tma := v }
  | some .tac => c.change c.div (v &&& 0x07)
  | none => c

end EdgeCounter

/-! ### What is done with a timer -/

namespace Timer

/-- What is done with a timer: the processor accesses an address, and clocks pass. -/
inductive Action where
  | write (addr : UInt16) (v : UInt8)
  | read (addr : UInt16)
  | pass (clocks : Nat)
  deriving DecidableEq, Repr

/-- The timer and the requests of interrupts after an action. -/
def Action.perform (s : Timer × UInt8) : Action → Timer × UInt8
  | write a v => ((s.1.writeAt a v).2, Interrupt.timer.request (s.1.writeAt a v).1 s.2)
  | read _ => s
  | pass n => Timer.pass n s

/-- A timer without a latch after an action. -/
def Action.count (c : EdgeCounter) : Action → EdgeCounter
  | write a v => c.writeAt a v
  | read _ => c
  | pass n => EdgeCounter.clock^[n] c

theorem signal_eq_gatedBit (div : UInt16) (tac : UInt8) : signal div tac = gatedBit div tac :=
  signal_eq_testBit div tac

theorem WellFormed.perform {s : Timer × UInt8} (h : s.1.WellFormed) (a : Action) :
    (a.perform s).1.WellFormed := by
  cases a with
  | write a v => exact h.writeAt a v
  | read => exact h
  | pass n => exact h.advance n

end Timer

/-! ### Timers with and without a latch -/

namespace EdgeCounter

/-- A timer whose latch is left out. -/
def ofTimer (s : Timer × UInt8) : EdgeCounter where
  div := s.1.div
  tima := s.1.tima
  tma := s.1.tma
  tac := s.1.tac
  requests := s.2

/-- To look at the signal after a change is to compare it with the signal before, if the latch was
right then. -/
theorem ofTimer_refresh {t : Timer} (hlatch : t.latch = Timer.signal t.div t.tac) (requests : UInt8)
    (div : UInt16) (tac : UInt8) :
    let t' := { t with div := div, tac := tac }.refresh
    ofTimer (t'.2, Interrupt.timer.request t'.1 requests) =
      (ofTimer (t, requests)).change div tac := by
  intro t'
  have hfalls : (t.latch && !Timer.signal div tac) = true ↔
      Timer.gatedBit t.div t.tac = true ∧ Timer.gatedBit div tac = false := by
    rw [hlatch, Timer.signal_eq_gatedBit, Timer.signal_eq_gatedBit, Bool.and_eq_true,
      Bool.not_eq_true']
  simp only [t', Timer.refresh_eq, hfalls]
  by_cases hedge : Timer.gatedBit t.div t.tac = true ∧ Timer.gatedBit div tac = false
  · have hchange := change_of_falls (c := ofTimer (t, requests)) hedge
    rw [if_pos hedge, hchange, increment]
    by_cases hfull : t.tima = 255
    · rw [if_pos hfull]
      simp [ofTimer, hfull, Interrupt.request, Interrupt.mask]
    · rw [if_neg hfull]
      simp [ofTimer, hfull, Interrupt.request]
  · have hchange := change_of_not_falls (c := ofTimer (t, requests)) hedge
    rw [if_neg hedge, hchange]
    rfl

theorem ofTimer_pass {s : Timer × UInt8} (h : s.1.WellFormed) (n : Nat) :
    ofTimer (Timer.pass n s) = clock^[n] (ofTimer s) := by
  induction n with
  | zero => rfl
  | succ n ih =>
    have hone (s : Timer × UInt8) (h : s.1.WellFormed) :
        ofTimer (Timer.pass 1 s) = clock (ofTimer s) := by
      have htick : s.1.advance 1 = s.1.tick := by simp [Timer.advance, Timer.advanceFrom]
      rw [Timer.pass, htick]
      exact ofTimer_refresh h.latch_eq s.2 (s.1.div + 1) s.1.tac
    rw [Timer.pass_add, hone _ (h.advance n), ih, Function.iterate_succ_apply']

/-- One action on both. -/
theorem ofTimer_perform {s : Timer × UInt8} (h : s.1.WellFormed) (a : Timer.Action) :
    ofTimer (a.perform s) = a.count (ofTimer s) := by
  cases a with
  | read => rfl
  | pass n => exact ofTimer_pass h n
  | write a v =>
    simp only [Timer.Action.perform, Timer.Action.count, Timer.writeAt, writeAt]
    cases Timer.Register.ofAddress? a with
    | none => rfl
    | some r =>
      cases r with
      | tima | tma => rfl
      | div => exact ofTimer_refresh h.latch_eq s.2 0 s.1.tac
      | tac => exact ofTimer_refresh h.latch_eq s.2 s.1.div (v &&& 0x07)

/-- Any actions on both. -/
theorem ofTimer_performAll {s : Timer × UInt8} (h : s.1.WellFormed)
    (actions : List Timer.Action) :
    ofTimer (actions.foldl Timer.Action.perform s) =
      actions.foldl Timer.Action.count (ofTimer s) := by
  induction actions generalizing s with
  | nil => rfl
  | cons a actions ih => rw [List.foldl_cons, List.foldl_cons, ih (h.perform a), ofTimer_perform h]

/-- A write to `DIV` or `TAC` is one change. -/
theorem ofTimer_perform_write {s : Timer × UInt8} (h : s.1.WellFormed) {a : UInt16}
    (ha : a = 0xFF04 ∨ a = 0xFF07) (v : UInt8) :
    ofTimer ((Timer.Action.write a v).perform s) =
      (ofTimer s).change (if a = 0xFF04 then 0 else s.1.div)
        (if a = 0xFF07 then v &&& 0x07 else s.1.tac) := by
  rw [ofTimer_perform h]
  rcases ha with rfl | rfl <;> rfl

end EdgeCounter

/-- **The timer counts the falling edges of its signal.** Whatever is done with a new timer, in any
order, its registers and the requests are those of a timer without a latch, which at every write to
`DIV` or `TAC` and at every clock compares the signal before and after, and makes one increment if
it fell. So a write to `DIV`, or one to `TAC` that switches the timer off or changes its rate,
increments the counter at most once, and just if the signal was high before and is low after it. -/
theorem timer_counts_falling_edges (requests : UInt8) (actions : List Timer.Action) :
    let s := actions.foldl Timer.Action.perform ({}, requests)
    let c := actions.foldl Timer.Action.count { requests := requests }
    (s.1.div = c.div ∧ s.1.tima = c.tima ∧ s.1.tma = c.tma ∧ s.1.tac = c.tac ∧
      s.2 = c.requests) ∧
    ∀ a v, a = 0xFF04 ∨ a = 0xFF07 →
      let s' := (Timer.Action.write a v).perform s
      let falls :=
        Timer.gatedBit s.1.div s.1.tac = true ∧ Timer.gatedBit s'.1.div s'.1.tac = false
      s'.1.div = (if a = 0xFF04 then 0 else s.1.div) ∧
        s'.1.tac = (if a = 0xFF07 then v &&& 0x07 else s.1.tac) ∧ s'.1.tma = s.1.tma ∧
        (falls → s'.1.tima = (if s.1.tima = 0xFF then s.1.tma else s.1.tima + 1) ∧
          s'.2 = if s.1.tima = 0xFF then s.2 ||| 0x04 else s.2) ∧
        (¬falls → s'.1.tima = s.1.tima ∧ s'.2 = s.2) := by
  intro s c
  have hnew : ({} : Timer).WellFormed := Timer.wellFormed_default
  have hsame : EdgeCounter.ofTimer s = c :=
    EdgeCounter.ofTimer_performAll (s := ({}, requests)) hnew actions
  have hwf : s.1.WellFormed := by
    refine List.foldlRecOn (motive := fun s : Timer × UInt8 => s.1.WellFormed) actions
      Timer.Action.perform hnew fun s h a _ => ?_
    exact h.perform a
  refine ⟨?_, fun a v ha => ?_⟩
  · rw [← hsame]
    exact ⟨rfl, rfl, rfl, rfl, rfl⟩
  · have hchange := EdgeCounter.registers_change (EdgeCounter.ofTimer s)
      (if a = 0xFF04 then 0 else s.1.div) (if a = 0xFF07 then v &&& 0x07 else s.1.tac)
    rw [← EdgeCounter.ofTimer_perform_write hwf ha v] at hchange
    exact hchange

/-- A timer whose counter is full is switched off in the second half of its period: the counter
overflows. If it is switched on once more instead, nothing is counted. -/
theorem counter_overflows_when_switched_off :
    let actions : List Timer.Action :=
      [.write 0xFF06 0xF0, .write 0xFF05 0xFF, .write 0xFF07 0x05, .pass 8]
    let s := actions.foldl Timer.Action.perform ({}, 0x00)
    let off := (Timer.Action.write 0xFF07 0x01).perform s
    let on := (Timer.Action.write 0xFF07 0x05).perform s
    ((0xFF07 : UInt16) = 0xFF04 ∨ (0xFF07 : UInt16) = 0xFF07) ∧
      ((Timer.gatedBit s.1.div s.1.tac = true ∧ Timer.gatedBit off.1.div off.1.tac = false) ∧
        off.1.tima = 0xF0 ∧ off.2 = 0x04) ∧
      ¬(Timer.gatedBit s.1.div s.1.tac = true ∧ Timer.gatedBit on.1.div on.1.tac = false) ∧
        on.1.tima = 0xFF ∧ on.2 = 0x00 := by
  intro actions s off on
  have ha : (0xFF07 : UInt16) = 0xFF04 ∨ (0xFF07 : UInt16) = 0xFF07 := .inr rfl
  have hfalls : Timer.gatedBit s.1.div s.1.tac = true ∧
      Timer.gatedBit off.1.div off.1.tac = false := by decide
  have hstays : ¬(Timer.gatedBit s.1.div s.1.tac = true ∧
      Timer.gatedBit on.1.div on.1.tac = false) := by decide
  have hwrites := (timer_counts_falling_edges 0x00 actions).2 0xFF07
  obtain ⟨-, -, -, hcount, -⟩ := hwrites 0x01 ha
  obtain ⟨-, -, -, -, hkeep⟩ := hwrites 0x05 ha
  obtain ⟨htima, hrequests⟩ := hcount hfalls
  obtain ⟨htima', hrequests'⟩ := hkeep hstays
  exact ⟨ha, ⟨hfalls, htima.trans (by decide), hrequests.trans (by decide)⟩, hstays,
    htima'.trans (by decide), hrequests'.trans (by decide)⟩

end Sm83
