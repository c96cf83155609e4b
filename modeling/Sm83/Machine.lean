import Sm83.Cpu
import Sm83.Memory.Basic

/-!
# The machine

Processor and memory together.  A step of the machine is a step of the processor, after which
the timer catches up and a pending interrupt is dispatched.  In flat mode the timer stands
still.

## Main definitions

* `Machine` — processor and memory; `Machine.powerOn` and `Machine.emptyFlat` are new ones.
* `Machine.step`, `Machine.run` — one step, and steps up to the first error.
* `Machine.loadRom`, `Machine.loadBootRom`, `Machine.reset` — images and the return to the
  initial state.
-/

namespace Sm83

/-- Processor and memory. -/
structure Machine where
  cpu : Cpu
  memory : Memory
  deriving DecidableEq

namespace Machine

/-- A machine in the usual mode, with the processor as the boot ROM leaves it. -/
def powerOn : Machine where
  cpu := .postBoot
  memory := {}

/-- A machine in flat mode, all zero. -/
def emptyFlat : Machine where
  cpu := {}
  memory := .emptyFlat

/-- Load the image of a cartridge. -/
def loadRom (m : Machine) (bytes : Array UInt8) : Except ImageError Machine :=
  (m.memory.loadRom bytes).map fun memory => { m with memory := memory }

/-- Load and map the image of a boot ROM.  The processor goes to its state at power-on, so that
execution starts with the image. -/
def loadBootRom (m : Machine) (bytes : Array UInt8) : Except ImageError Machine :=
  (m.memory.loadBootRom bytes).map fun memory => { cpu := {}, memory := memory }

/-- The initial state with the same images and mode. -/
def reset (m : Machine) : Machine :=
  let memory := m.memory.reset
  { cpu := if memory.bootMapped || memory.isFlat then {} else .postBoot, memory := memory }

end Machine

/-- Let clocks pass for the timer, which may request its interrupt.  In flat mode it stands
still. -/
@[inline] def Memory.elapse (m : Memory) (clocks : Nat) : Memory :=
  if m.isFlat then m
  else
    let (overflow, timer) := m.timer.advance clocks
    { m with timer := timer, requests := Interrupt.timer.request overflow m.requests }

namespace Machine

/-- One step of the processor, followed by the timer and by the dispatch of an interrupt: the
clocks of all that, and the new state. -/
def step (m : Machine) : Except CpuError Nat × Machine :=
  let ⟨cpu, memory⟩ := m
  let (result, cpu, memory) := cpu.step memory
  match result with
  | .error e => (.error e, ⟨cpu, memory⟩)
  | .ok clocks =>
    let (spent, cpu, memory) := cpu.serviceInterrupts (memory.elapse clocks)
    (.ok (clocks + spent), ⟨cpu, memory⟩)

/-- What a run of several steps came to. -/
structure Run where
  /-- The steps that succeeded. -/
  steps : Nat := 0
  /-- The clocks of those steps. -/
  clocks : Nat := 0
  /-- The error that ended the run, if one did. -/
  error : Option CpuError := none

/-- Continue a run for at most `budget` steps. -/
def runFrom (sofar : Run) : (budget : Nat) → Machine → Run × Machine
  | 0, m => (sofar, m)
  | budget + 1, m =>
    match m.step with
    | (.ok clocks, m) =>
      runFrom { sofar with steps := sofar.steps + 1, clocks := sofar.clocks + clocks } budget m
    | (.error e, m) => ({ sofar with error := some e }, m)

/-- Take at most `budget` steps, and end at the first error. -/
def run (budget : Nat) (m : Machine) : Run × Machine :=
  runFrom {} budget m

end Machine

end Sm83
