import Sm83.Machine

/-!
# Conformance cases

A case gives the state of a machine in flat mode before and after one step.  Its verdict tells
everything in which the machine's state after the step differs from the given one.

## Main definitions

* `Snapshot` — registers and some bytes of RAM.
* `ConformanceCase` — two snapshots, and the number of machine cycles between them.
* `ConformanceCase.verdict` — the outcome of the comparison.
* `Difference.text`, `ConformanceCase.message?` — how it is told.
-/

namespace Sm83

/-- Registers and some bytes of RAM. -/
structure Snapshot where
  pc : UInt16
  sp : UInt16
  a : UInt8
  b : UInt8
  c : UInt8
  d : UInt8
  e : UInt8
  f : UInt8
  h : UInt8
  l : UInt8
  /-- The interrupt master enable; not zero stands for set. -/
  ime : UInt8
  /-- The enabled interrupts, which flat mode does not have. -/
  ie : Option UInt8 := none
  /-- The delayed enabling of interrupts, if it matters. -/
  ei : Option UInt8 := none
  /-- Addresses with their bytes. -/
  ram : List (UInt16 × UInt8) := []
  deriving DecidableEq, Repr

/-- The state before and after one step. -/
structure ConformanceCase where
  name : String
  initial : Snapshot
  expected : Snapshot
  /-- The number of machine cycles of the step; zero if nothing is known about it. -/
  cycles : Nat := 0
  deriving DecidableEq, Repr

/-- Something in which two states differ. -/
inductive Difference where
  /-- A register or latch. -/
  | register (name : String) (want got : UInt16)
  /-- A byte of RAM. -/
  | ram (addr : UInt16) (want got : UInt8)
  /-- The clocks that the step took. -/
  | clocks (want got : Nat)
  deriving DecidableEq, Repr

/-- The text of a difference. -/
def Difference.text : Difference → String
  | register name want got => name ++ ": want 0x" ++ hexWord want ++ " got 0x" ++ hexWord got
  | ram addr want got =>
    "ram[0x" ++ hexWord addr ++ "]: want 0x" ++ hexByte want ++ " got 0x" ++ hexByte got
  | clocks want got => "cycles: want " ++ Nat.repr want ++ " got " ++ Nat.repr got

/-- One for `true`, zero for `false`. -/
def flagWord (b : Bool) : UInt16 :=
  if b then 1 else 0

namespace Snapshot

/-- The registers of a snapshot. -/
def registers (s : Snapshot) : RegisterFile :=
  { a := s.a, flags := .ofByte s.f, b := s.b, c := s.c, d := s.d, e := s.e, h := s.h, l := s.l
    sp := s.sp, pc := s.pc, ime := s.ime != 0 }

/-- The machine in flat mode that a snapshot describes.  RAM that is not listed is zero. -/
def machine (s : Snapshot) : Machine where
  cpu := { regs := s.registers, eiPending := s.ei.any (· != 0) }
  memory := s.ram.foldl (fun m (addr, v) => m.write8 addr v) .emptyFlat

/-- The registers and latches that are compared, with the values wanted and those of a
machine. -/
def compared (s : Snapshot) (cpu : Cpu) : List (String × UInt16 × UInt16) :=
  [("pc", s.pc, cpu.regs.pc),
    ("sp", s.sp, cpu.regs.sp),
    ("a", s.a.toUInt16, cpu.regs.a.toUInt16),
    ("b", s.b.toUInt16, cpu.regs.b.toUInt16),
    ("c", s.c.toUInt16, cpu.regs.c.toUInt16),
    ("d", s.d.toUInt16, cpu.regs.d.toUInt16),
    ("e", s.e.toUInt16, cpu.regs.e.toUInt16),
    ("f", s.f.toUInt16, cpu.regs.f.toUInt16),
    ("h", s.h.toUInt16, cpu.regs.h.toUInt16),
    ("l", s.l.toUInt16, cpu.regs.l.toUInt16),
    ("ime", flagWord (s.ime != 0), flagWord cpu.regs.ime)] ++
    s.ei.toList.map fun ei => ("ei", flagWord (ei != 0), flagWord cpu.eiPending)

/-- The registers and latches in which a processor differs from a snapshot. -/
def registerDifferences (s : Snapshot) (cpu : Cpu) : List Difference :=
  (s.compared cpu).filterMap fun (name, want, got) =>
    if want = got then none else some (.register name want got)

/-- The listed bytes of RAM in which a memory differs from a snapshot. -/
def ramDifferences (s : Snapshot) (m : Memory) : List Difference :=
  s.ram.filterMap fun (addr, want) =>
    let got := m.read8 addr
    if want = got then none else some (.ram addr want got)

/-- Everything in which a machine differs from a snapshot. -/
def differences (s : Snapshot) (m : Machine) : List Difference :=
  s.registerDifferences m.cpu ++ s.ramDifferences m.memory

end Snapshot

/-- The outcome of a case. -/
inductive Verdict where
  /-- The states agree. -/
  | passed
  /-- The step failed. -/
  | failed (e : CpuError)
  /-- The states differ. -/
  | differs (ds : List Difference)
  deriving DecidableEq, Repr

namespace ConformanceCase

/-- The clocks that the step should take, four to a machine cycle.  The product is exact; counted in
32 bits it is the same for fewer than `2 ^ 30` machine cycles. -/
def expectedClocks (c : ConformanceCase) : Nat :=
  c.cycles * 4

/-- The difference in clocks, if the case gives them. -/
def clockDifferences (c : ConformanceCase) (clocks : Nat) : List Difference :=
  if c.cycles = 0 ∨ clocks = c.expectedClocks then [] else [.clocks c.expectedClocks clocks]

/-- Take the step and compare.  Neither timer nor interrupts take part. -/
def verdict (c : ConformanceCase) : Verdict :=
  let start := c.initial.machine
  match start.cpu.step start.memory with
  | (.error e, _) => .failed e
  | (.ok clocks, cpu, memory) =>
    match c.expected.differences ⟨cpu, memory⟩ ++ c.clockDifferences clocks with
    | [] => .passed
    | ds => .differs ds

/-- What there is to tell about a case that did not pass. -/
def message? (c : ConformanceCase) : Option String :=
  match c.verdict with
  | .passed => none
  | .failed e => some (c.name ++ ": step failed: " ++ e.message)
  | .differs ds => some (c.name ++ ": " ++ "; ".intercalate (ds.map Difference.text))

end ConformanceCase

end Sm83
