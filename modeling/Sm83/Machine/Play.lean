import Sm83.Machine

/-!
# Playing a program

A program is played without picture and sound: what it sends over the serial link is its output.
Playing ends early when nothing can wake the processor any more.

## Main definitions

* `Machine.takeSent` — the bytes sent, handed over.
* `Machine.isIdle` — whether nothing can wake the processor.
* `Machine.play` — steps with their output.
-/

namespace Sm83

namespace Machine

/-- The bytes sent over the serial link so far, and the machine with none of them left. -/
def takeSent (m : Machine) : Array UInt8 × Machine :=
  let (sent, serial) := m.memory.serial.take
  (sent, { m with memory := { m.memory with serial := serial } })

/-- Whether nothing can wake the processor: it is stopped, or it waits and no interrupt is
enabled. -/
def isIdle (m : Machine) : Bool :=
  m.cpu.stopped || (m.cpu.halted && m.memory.enables &&& Interrupt.allMask == 0)

/-- What playing a program came to. -/
structure Played where
  /-- The bytes sent. -/
  output : Array UInt8
  /-- The error that ended the program, if one did. -/
  error : Option CpuError
  /-- The machine at the end. -/
  machine : Machine

/-- Continue playing for at most `budget` steps, with the output so far. -/
def playFrom (output : Array UInt8) : (budget : Nat) → Machine → Played
  | 0, m => ⟨output, none, m⟩
  | budget + 1, m =>
    match m.step with
    | (.error e, m) => ⟨output, some e, m⟩
    | (.ok _, m) =>
      let (sent, m) := m.takeSent
      if m.isIdle then ⟨output ++ sent, none, m⟩ else playFrom (output ++ sent) budget m

/-- Play for at most `budget` steps. -/
def play (budget : Nat) (m : Machine) : Played :=
  playFrom #[] budget m

end Machine

end Sm83
