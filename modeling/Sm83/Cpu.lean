import Sm83.Operation.Decode
import Sm83.Operation.Execute

/-!
# The processor

The registers and the latches around them: a delayed enabling of interrupts, the two kinds of
standstill, and a count of all clocks.

## Main definitions

* `Cpu` — registers and latches; `Cpu.postBoot` is their state after the boot ROM.
* `Cpu.step` — one operation, or an idle slot.
* `Cpu.serviceInterrupts` — the dispatch of a pending interrupt.
-/

namespace Sm83

/-- The state of the processor; by default that at power-on. -/
structure Cpu where
  regs : RegisterFile := {}
  /-- Interrupts are to be enabled after the next operation. -/
  eiPending : Bool := false
  /-- Waiting for an interrupt. -/
  halted : Bool := false
  /-- Stopped for good: what would end it, a button, is not modelled. -/
  stopped : Bool := false
  /-- The clocks since power-on.  The count has no upper end. -/
  clocks : Nat := 0
  deriving DecidableEq, Repr

namespace Cpu

/-- The processor as the boot ROM leaves it. -/
def postBoot : Cpu :=
  { regs := .postBoot }

/-- The clocks of a slot in which nothing is executed. -/
def idleClocks : Nat := 4

/-- The clocks of an interrupt's dispatch. -/
def dispatchClocks : Nat := 20

/-- Let a number of clocks pass. -/
def spend (c : Cpu) (n : Nat) : Cpu :=
  { c with clocks := c.clocks + n }

/-- The processor after an operation that left the given registers.  An earlier `EI` takes
effect now, unless the operation withdrew it. -/
def settle (c : Cpu) (o : Outcome) (regs : RegisterFile) : Cpu where
  regs :=
    if c.eiPending && o.control != .disableInterrupts then { regs with ime := true } else regs
  eiPending := o.control == .enableInterrupts
  halted := o.control == .halt
  stopped := o.control == .stop
  clocks := c.clocks + o.clocks

variable {β : Type u} [Bus β]

/-- Fetch and execute the operation at the program counter: the clocks it took, and the new
state.  After an error the program counter is where it was. -/
@[specialize] def executeNext (c : Cpu) (bus : β) : Except CpuError Nat × Cpu × β :=
  let (fetched, bus) := fetch c.regs.pc bus
  let (result, s) := fetched.operation.execute ⟨{ c.regs with pc := fetched.next }, bus⟩
  match result with
  | .error e => (.error e, { c with regs := { s.regs with pc := c.regs.pc } }, s.bus)
  | .ok o => (.ok o.clocks, c.settle o s.regs, s.bus)

/-- One step: an idle slot at a standstill, else one operation.  A pending interrupt ends the
wait of `HALT`, whether or not interrupts are enabled. -/
@[specialize] def step (c : Cpu) (bus : β) : Except CpuError Nat × Cpu × β :=
  if c.stopped then
    (.ok idleClocks, c.spend idleClocks, bus)
  else if c.halted && Bus.pending bus == 0 then
    (.ok idleClocks, c.spend idleClocks, bus)
  else
    { c with halted := false }.executeNext bus

/-- Dispatch the interrupt of highest priority, if interrupts are enabled: the clocks spent, and
the new state.  Any pending interrupt ends the wait of `HALT`. -/
@[specialize] def serviceInterrupts (c : Cpu) (bus : β) : Nat × Cpu × β :=
  match Interrupt.first? (Bus.pending bus) with
  | none => (0, c, bus)
  | some i =>
    if c.regs.ime then
      let core : Core β := ⟨{ c.regs with ime := false }, Bus.acknowledge i bus⟩
      let core := core.call i.vector
      (dispatchClocks, { c with halted := false, regs := core.regs }.spend dispatchClocks, core.bus)
    else
      (0, { c with halted := false }, bus)

end Cpu

end Sm83
