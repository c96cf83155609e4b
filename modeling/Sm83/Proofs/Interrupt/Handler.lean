import Sm83.Proofs.Interrupt.Enable

/-!
# Interrupts in a handler

The dispatch of an interrupt disables interrupts, so that its handler runs undisturbed until it
enables them itself. The latch of `EI` is not cleared by the dispatch: an `EI` that is executed by
the very step that dispatches takes effect after the first operation of the handler. This is
possible only if interrupts were enabled, or about to be, before that `EI`. The file states for
which dispatches the handler is undisturbed.

## Main definitions

* `Machine.Enabling` — a step executes `RETI` or `EI`.
* `Machine.UntilEnabling` — a property holds until an enabling step.
* `Machine.Masked`, `Machine.Undisturbed` — interrupts are disabled until an enabling step, and
  none is dispatched.
* `Machine.LateEnable` — the next operation lets an earlier `EI` take effect.

## Main results

* `Machine.untilEnabling_of_invariant` — how to show that a property holds until an enabling step.
* `Machine.undisturbed_of_latch_clear` — a clear latch keeps a handler undisturbed.
* `handler_masked_iff` — the dispatches after which interrupts stay disabled.
-/

namespace Sm83

namespace Machine

/-- The next step executes `RETI`, or `EI`, and so enables interrupts at once or one operation
later. -/
def Enabling (m : Machine) : Prop :=
  m.Executes .reti ∨ m.Executes .ei

/-- A property holds now and after every later step until a step executes `RETI` or `EI`. -/
def UntilEnabling (Q : Machine → Prop) (m : Machine) : Prop :=
  ∀ n, (∀ k < n, ¬ (m.after k).Enabling) → Q (m.after n)

/-- Interrupts are disabled until a step executes `RETI` or `EI`, and still after that `EI`. -/
def Masked : Machine → Prop :=
  UntilEnabling fun m =>
    m.cpu.regs.ime = false ∧ (m.Executes .ei → m.step.2.cpu.regs.ime = false)

/-- Interrupts are disabled until a step executes `RETI` or `EI`, and until then no step but that
`RETI` dispatches one. -/
def Undisturbed (m : Machine) : Prop :=
  m.Masked ∧ m.UntilEnabling fun m => ¬ m.Executes .reti → m.dispatched? = none

/-- The latch of `EI` is set, and the next step executes an operation that lets it take effect. -/
def LateEnable (m : Machine) : Prop :=
  m.cpu.eiPending = true ∧ ∃ op, m.Executes op ∧ op ≠ .di ∧ op ≠ .reti

variable {m : Machine}

/-! ### Properties up to an enabling step -/

section UntilEnabling

variable {Q : Machine → Prop}

/-- A property holds until an enabling step if it holds now and, unless the next step is enabling,
goes on to do so after it. -/
theorem untilEnabling_iff :
    m.UntilEnabling Q ↔ Q m ∧ (¬ m.Enabling → m.step.2.UntilEnabling Q) := by
  constructor
  · intro h
    refine ⟨h 0 fun k hk => absurd hk (Nat.not_lt_zero k), fun hstep n hn => ?_⟩
    refine h (n + 1) fun k hk => ?_
    cases k with
    | zero => exact hstep
    | succ k => exact hn k (Nat.lt_of_succ_lt_succ hk)
  · rintro ⟨hnow, hlater⟩ n hn
    cases n with
    | zero => exact hnow
    | succ n =>
      exact hlater (hn 0 (Nat.succ_pos n)) n fun k hk => hn (k + 1) (Nat.succ_lt_succ hk)

/-- A property holds until an enabling step if it follows from an invariant that every other step
preserves. -/
theorem untilEnabling_of_invariant {P : Machine → Prop} (hQ : ∀ m, P m → Q m)
    (hP : ∀ m, P m → ¬ m.Enabling → P m.step.2) (h : P m) : m.UntilEnabling Q := by
  intro n hn
  have hinv : P (m.after n) := by
    induction n with
    | zero => exact h
    | succ n ih =>
      rw [after_succ]
      exact hP _ (ih fun k hk => hn k (Nat.lt_succ_of_lt hk)) (hn n (Nat.lt_succ_self n))
  exact hQ _ hinv

end UntilEnabling

theorem masked_iff :
    m.Masked ↔ (m.cpu.regs.ime = false ∧ (m.Executes .ei → m.step.2.cpu.regs.ime = false)) ∧
      (¬ m.Enabling → m.step.2.Masked) :=
  untilEnabling_iff

theorem undisturbed_iff :
    m.Undisturbed ↔ (m.cpu.regs.ime = false ∧ (m.Executes .ei → m.step.2.cpu.regs.ime = false)) ∧
      (¬ m.Executes .reti → m.dispatched? = none) ∧ (¬ m.Enabling → m.step.2.Undisturbed) := by
  rw [Undisturbed, masked_iff, untilEnabling_iff]
  constructor
  · rintro ⟨⟨hime, hmasked⟩, hdispatched, hlater⟩
    exact ⟨hime, hdispatched, fun h => ⟨hmasked h, hlater h⟩⟩
  · rintro ⟨hime, hdispatched, hlater⟩
    exact ⟨⟨hime, fun h => (hlater h).1⟩, hdispatched, fun h => (hlater h).2⟩

theorem undisturbed_of_invariant {P : Machine → Prop}
    (hime : ∀ m, P m → m.cpu.regs.ime = false ∧ (m.Executes .ei → m.step.2.cpu.regs.ime = false))
    (hdispatched : ∀ m, P m → ¬ m.Executes .reti → m.dispatched? = none)
    (hP : ∀ m, P m → ¬ m.Enabling → P m.step.2) (h : P m) : m.Undisturbed :=
  ⟨untilEnabling_of_invariant hime hP h, untilEnabling_of_invariant hdispatched hP h⟩

/-! ### Handlers with a clear latch -/

theorem undisturbed_of_latch_clear (hime : m.cpu.regs.ime = false)
    (hlatch : m.cpu.eiPending = false) : m.Undisturbed := by
  have hquiet : ∀ m : Machine, m.cpu.regs.ime = false ∧ m.cpu.eiPending = false →
      ¬ m.Executes .reti → m.dispatched? = none ∧ m.step.2.cpu.regs.ime = false := by
    rintro m ⟨hime, hlatch⟩ hreti
    refine quiet_step hime fun op hop => ⟨?_, fun hset => ?_⟩
    · rintro rfl
      exact hreti hop
    · exact absurd (hlatch.symm.trans hset) Bool.false_ne_true
  refine undisturbed_of_invariant
    (P := fun m => m.cpu.regs.ime = false ∧ m.cpu.eiPending = false) ?_ ?_ ?_ ⟨hime, hlatch⟩
  · exact fun m h => ⟨h.1, fun hei => (hquiet m h fun hreti => by cases hreti.unique hei).2⟩
  · exact fun m h hreti => (hquiet m h hreti).1
  · intro m h hstep
    refine ⟨(hquiet m h fun hreti => hstep (.inl hreti)).2, ?_⟩
    by_cases hexec : ∃ op, m.Executes op
    · obtain ⟨op, hop⟩ := hexec
      refine eiPending_step_of_ne_ei hop ?_
      rintro rfl
      exact hstep (.inr hop)
    · rw [not_exists] at hexec
      rw [(latches_step_of_not_executes hexec).1, h.2]

/-! ### Standstill -/

/-- The processor is stopped, or not waiting and at an opcode byte without a meaning. -/
def Stuck (m : Machine) : Prop :=
  m.cpu.stopped = true ∨ m.cpu.halted = false ∧ ∃ b, m.upcoming? = some (.invalid b)

theorem Stuck.not_executes (h : m.Stuck) (op : Operation) : ¬ m.Executes op := by
  rw [executes_iff]
  rintro ⟨hup, hencodable⟩
  rcases h with hstopped | ⟨-, b, hb⟩
  · simp [upcoming?, Cpu.upcoming?, hstopped] at hup
  · obtain rfl : op = .invalid b := Option.some.inj (hup.symm.trans hb)
    exact hencodable

/-- A step at a standstill does not end it. -/
theorem Stuck.step (h : m.Stuck) : m.step.2.Stuck := by
  rcases h with hstopped | ⟨hhalted, b, hb⟩
  · refine .inl ?_
    rw [stopped_step, (Cpu.latches_step_of_not_executes fun op hop => ?_).2.2, hstopped]
    simp [Cpu.upcoming?, hstopped] at hop
  · have hfixed : m.step.2 = m := by
      rcases m.cpu.step_cases m.memory with ⟨hnone, -⟩ | ⟨op, hop, hencodable, -⟩ |
        ⟨b', -, -, -, hstep⟩
      · cases hnone.symm.trans hb
      · obtain rfl : op = .invalid b := Option.some.inj (hop.symm.trans hb)
        exact hencodable.elim
      · have hcpu : { m.cpu with halted := false } = m.cpu := by rw [← hhalted]
        rw [(step_of_error hstep).2, hcpu]
        rfl
    rw [hfixed]
    exact .inr ⟨hhalted, b, hb⟩

theorem Stuck.undisturbed (h : m.Stuck) (hime : m.cpu.regs.ime = false) : m.Undisturbed := by
  have hquiet : ∀ m : Machine, m.Stuck ∧ m.cpu.regs.ime = false →
      m.dispatched? = none ∧ m.step.2.cpu.regs.ime = false :=
    fun m h => quiet_step h.2 fun op hop => absurd hop (h.1.not_executes op)
  exact undisturbed_of_invariant (P := fun m => m.Stuck ∧ m.cpu.regs.ime = false)
    (fun m h => ⟨h.2, fun _ => (hquiet m h).2⟩) (fun m h _ => (hquiet m h).1)
    (fun m h _ => ⟨h.1.step, (hquiet m h).2⟩) ⟨h, hime⟩

/-- A machine that does not wait executes an operation, or is stuck. -/
theorem executes_or_stuck (h : m.cpu.halted = false) : (∃ op, m.Executes op) ∨ m.Stuck := by
  rcases m.cpu.step_cases m.memory with ⟨hnone, -⟩ | ⟨op, hop, hencodable, -⟩ | ⟨b, -, hb, -⟩
  · have hstopped : m.cpu.stopped = true := by simpa [Cpu.upcoming?, h] using hnone
    exact .inr (.inl hstopped)
  · exact .inl ⟨op, executes_iff.mpr ⟨hop, hencodable⟩⟩
  · exact .inr (.inr ⟨h, b, hb⟩)

/-! ### The first operation of a handler -/

/-- An earlier `EI` that takes effect without a dispatch leaves interrupts enabled. -/
theorem LateEnable.not_masked (h : m.LateEnable) (hnone : m.dispatched? = none) : ¬ m.Masked := by
  obtain ⟨hlatch, op, hop, hdi, hreti⟩ := h
  have henabled : m.step.2.cpu.regs.ime = true :=
    (latches_step_of_executes hop).2.mpr ⟨hnone, .inr ⟨hdi, .inr hlatch⟩⟩
  intro hmasked
  obtain ⟨⟨-, hei⟩, hlater⟩ := masked_iff.mp hmasked
  have hstep : ¬ m.Enabling := by
    rintro (hop' | hop')
    · exact hreti (hop.unique hop')
    · exact Bool.false_ne_true ((hei hop').symm.trans henabled)
  exact Bool.false_ne_true ((masked_iff.mp (hlater hstep)).1.1.symm.trans henabled)

theorem undisturbed_of_executes_reti (h : m.Executes .reti) (hime : m.cpu.regs.ime = false) :
    m.Undisturbed := by
  refine undisturbed_iff.mpr ⟨⟨hime, fun hei => ?_⟩, fun hnot => absurd h hnot,
    fun hnot => absurd (.inl h) hnot⟩
  cases h.unique hei

/-- `DI` at the start of a handler withdraws an earlier `EI`. -/
theorem undisturbed_of_executes_di (h : m.Executes .di) (hime : m.cpu.regs.ime = false) :
    m.Undisturbed := by
  obtain ⟨hdispatched, hafter⟩ := quiet_step hime fun op hop => by
    rw [hop.unique h]
    exact ⟨Operation.noConfusion, fun _ => rfl⟩
  have hlatch : m.step.2.cpu.eiPending = false := eiPending_step_of_ne_ei h Operation.noConfusion
  exact undisturbed_iff.mpr ⟨⟨hime, fun _ => hafter⟩, fun _ => hdispatched,
    fun _ => undisturbed_of_latch_clear hafter hlatch⟩

/-- A handler is undisturbed exactly if its first operation does not let an earlier `EI` take
effect. -/
theorem undisturbed_iff_not_lateEnable (hime : m.cpu.regs.ime = false)
    (hhalted : m.cpu.halted = false) : m.Undisturbed ↔ ¬ m.LateEnable := by
  constructor
  · intro h hlate
    obtain ⟨-, op, hop, -, hreti⟩ := id hlate
    have hnone : m.dispatched? = none :=
      (undisturbed_iff.mp h).2.1 fun hop' => hreti (hop.unique hop')
    exact hlate.not_masked hnone h.1
  · intro hlate
    by_cases hlatch : m.cpu.eiPending = false
    · exact undisturbed_of_latch_clear hime hlatch
    rw [Bool.not_eq_false] at hlatch
    rcases executes_or_stuck hhalted with ⟨op, hop⟩ | hstuck
    · by_cases hreti : op = .reti
      · exact undisturbed_of_executes_reti (hreti ▸ hop) hime
      · -- what is executed next with the latch set can then only be `DI`
        have hdi : op = .di :=
          Classical.not_not.mp fun hdi => hlate ⟨hlatch, op, hop, hdi, hreti⟩
        exact undisturbed_of_executes_di (hdi ▸ hop) hime
    · exact hstuck.undisturbed hime

/-- Interrupts stay disabled in a handler exactly if its first operation does not let an earlier
`EI` take effect, or is followed by another dispatch. -/
theorem masked_iff_not_lateEnable (hime : m.cpu.regs.ime = false) (hhalted : m.cpu.halted = false) :
    m.Masked ↔ ¬ (m.LateEnable ∧ m.dispatched? = none) := by
  refine ⟨fun h ⟨hlate, hnone⟩ => hlate.not_masked hnone h, fun h => ?_⟩
  by_cases hlate : m.LateEnable
  · obtain ⟨i, hi⟩ : ∃ i, m.dispatched? = some i :=
      Option.ne_none_iff_exists'.mp fun hnone => h ⟨hlate, hnone⟩
    have hafter : m.step.2.cpu.regs.ime = false := ime_step_of_dispatched? hi
    refine masked_iff.mpr ⟨⟨hime, fun _ => hafter⟩, fun hstep => ?_⟩
    obtain ⟨-, op, hop, -⟩ := hlate
    have hei : op ≠ .ei := by
      rintro rfl
      exact hstep (.inr hop)
    exact (undisturbed_of_latch_clear hafter (eiPending_step_of_ne_ei hop hei)).1
  · exact ((undisturbed_iff_not_lateEnable hime hhalted).mpr hlate).1

/-- After a step that dispatches, the latch of `EI` is set if the step executed `EI`, or was an idle
slot and found it set. -/
theorem eiPending_step_of_dispatched? {i : Interrupt} (h : m.dispatched? = some i) :
    m.step.2.cpu.eiPending = true ↔
      m.Executes .ei ∨ m.upcoming? = none ∧ m.cpu.eiPending = true := by
  by_cases hexec : ∃ op, m.Executes op
  · obtain ⟨op, hop⟩ := hexec
    rw [(latches_step_of_executes hop).1]
    constructor
    · rintro rfl
      exact .inl hop
    · rintro (hei | ⟨hnone, -⟩)
      · exact hop.unique hei
      · cases hnone.symm.trans hop.1
  · rw [not_exists] at hexec
    have hnone : m.upcoming? = none := by
      rw [Option.eq_none_iff_forall_ne_some]
      exact fun op hop => hexec op ⟨hop, step_eq_ok_of_dispatched? h⟩
    simp only [(latches_step_of_not_executes hexec).1, hnone, hexec, false_or, true_and]

end Machine

/-- **Interrupts in a handler.** After a step that dispatches an interrupt, interrupts are disabled
and the processor is at the interrupt's vector. Until a step executes `RETI` or `EI`, interrupts
stay disabled, except if the latch of `EI` is set, the first operation of the handler is neither
`DI` nor `RETI`, and its step does not dispatch again; and no step dispatches again, except if the
latch is set and the first operation is neither `DI` nor `RETI`. The latch is set exactly if the
dispatching step executed `EI`, or was an idle slot and found it set. -/
theorem handler_masked_iff {m : Machine} {i : Interrupt} (h : m.dispatched? = some i) :
    m.step.2.cpu.regs.ime = false ∧ m.step.2.cpu.regs.pc = i.vector ∧
      (m.step.2.Masked ↔ ¬ (m.step.2.LateEnable ∧ m.step.2.dispatched? = none)) ∧
      (m.step.2.Undisturbed ↔ ¬ m.step.2.LateEnable) ∧
      (m.step.2.cpu.eiPending = true ↔
        m.Executes .ei ∨ m.upcoming? = none ∧ m.cpu.eiPending = true) := by
  obtain ⟨hpc, hhalted⟩ := Machine.pc_step_of_dispatched? h
  have hime : m.step.2.cpu.regs.ime = false := Machine.ime_step_of_dispatched? h
  exact ⟨hime, hpc, Machine.masked_iff_not_lateEnable hime hhalted,
    Machine.undisturbed_iff_not_lateEnable hime hhalted, Machine.eiPending_step_of_dispatched? h⟩

/-- A `NOP` at the end of which an interrupt is dispatched leaves the handler masked. -/
theorem masked_after_nop :
    let memory : Memory := { cartridge := ⟨#[0x00], by decide⟩, requests := 0x01, enables := 0x01 }
    let m : Machine := ⟨{ regs := { sp := 0xE000, ime := true } }, memory⟩
    m.dispatched? = some .vblank ∧ m.step.2.Masked := by
  intro memory m
  have h : m.dispatched? = some .vblank := by decide
  have hlatch : m.step.2.cpu.eiPending = false := by decide
  refine ⟨h, (handler_masked_iff h).2.2.1.mpr fun hlate => ?_⟩
  exact Bool.false_ne_true (hlatch.symm.trans hlate.1.1)

/-- An `EI` that is executed with interrupts enabled, and followed by a dispatch, enables interrupts
at the end of the `NOP` that starts the handler. -/
theorem not_masked_after_ei :
    let memory : Memory :=
      { cartridge := ⟨#[0xFB] ++ Array.replicate 64 0x00, by decide⟩,
        requests := 0x01, enables := 0x01 }
    let m : Machine := ⟨{ regs := { sp := 0xE000, ime := true } }, memory⟩
    m.memory.isFlat = false ∧ m.dispatched? = some .vblank ∧ m.step.2.upcoming? = some .nop ∧
      m.step.2.cpu.regs.ime = false ∧ (m.after 2).cpu.regs.ime = true ∧ ¬ m.step.2.Masked := by
  intro memory m
  have hup : m.step.2.upcoming? = some .nop := by decide
  have hexec : m.step.2.Executes .nop := Machine.executes_iff.mpr ⟨hup, trivial⟩
  have hlate : m.step.2.LateEnable :=
    ⟨by decide, .nop, hexec, Operation.noConfusion, Operation.noConfusion⟩
  exact ⟨rfl, by decide, hup, by decide, by decide, hlate.not_masked (by decide)⟩

end Sm83
