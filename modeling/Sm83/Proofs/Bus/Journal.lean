import Sm83.Proofs.Cpu.Step

/-!
# The accesses of the processor to its bus

A journal is a bus that writes down every access before it passes it on. The processor cannot
tell it from the bus inside, so the journal of a step holds exactly the addresses that the step
fetches, reads and writes, in order. For an operation they are known from the registers alone:
no address depends on a byte that the operation itself reads.

## Main definitions

* `Access` — a read or a write of an address.
* `Journal` — a bus with the accesses to it so far.
* `Operation.accesses`, `fetchAccesses` — the accesses of an operation and of a fetch.
* `Cpu.accesses` — the accesses of a step.
* `Cpu.steps` — several steps with their results.

## Main results

* `Operation.effect_noted`, `fetch_journal`, `Cpu.step_journal`, `Cpu.steps_journal` — what is
  done through a journal is what is done without it, and the journal grows by the accesses.
-/

namespace Sm83

/-- An access to the bus. -/
inductive Access where
  | read (addr : UInt16)
  | write (addr : UInt16)
  deriving DecidableEq, Repr

/-- The address of an access. -/
def Access.address : Access → UInt16
  | read addr => addr
  | write addr => addr

/-- A bus with the accesses to it so far, the earliest first. -/
structure Journal (β : Type u) where
  bus : β
  accesses : List Access := []

variable {β : Type u} [Bus β]

instance : Bus (Journal β) where
  read addr j := ((ByteSource.read addr j.bus).1,
    ⟨(ByteSource.read addr j.bus).2, j.accesses ++ [.read addr]⟩)
  write addr v j := ⟨Bus.write addr v j.bus, j.accesses ++ [.write addr]⟩
  pending j := Bus.pending j.bus
  acknowledge i j := ⟨Bus.acknowledge i j.bus, j.accesses⟩

/-! ### Accesses of operations -/

/-- The accesses of reading a byte operand. -/
def Reg8.reads (r : RegisterFile) : Reg8 → List Access
  | atHL => [.read r.hl]
  | _ => []

/-- The accesses of writing a byte operand. -/
def Reg8.writes (r : RegisterFile) : Reg8 → List Access
  | atHL => [.write r.hl]
  | _ => []

/-- The accesses of a push. -/
def RegisterFile.pushes (r : RegisterFile) : List Access :=
  [.write (r.sp - 1), .write (r.sp - 1 - 1)]

/-- The accesses of a pop. -/
def RegisterFile.pops (r : RegisterFile) : List Access :=
  [.read r.sp, .read (r.sp + 1)]

/-- The accesses of an operation, in order, with the registers before it. -/
def Operation.accesses (op : Operation) (r : RegisterFile) : List Access :=
  match op with
  | load dst src => src.reads r ++ dst.writes r
  | loadImm dst _ => dst.writes r
  | storeAt p => [.write (r.pointer p).1]
  | loadAt p => [.read (r.pointer p).1]
  | storeAbs addr => [.write addr]
  | loadAbs addr => [.read addr]
  | storeHigh n => [.write (highAddress n)]
  | loadHigh n => [.read (highAddress n)]
  | storeHighC => [.write (highAddress r.c)]
  | loadHighC => [.read (highAddress r.c)]
  | storeSP addr => [.write addr, .write (addr + 1)]
  | push _ | rst _ => r.pushes
  | pop _ | reti => r.pops
  | alu _ s | bit _ s => s.reads r
  | inc s | dec s | shift _ s | res _ s | set _ s => s.reads r ++ s.writes r
  | call cond _ => if r.flags.allow cond then r.pushes else []
  | ret cond => if r.flags.allow cond then r.pops else []
  | nop | stop | halt | di | ei | loadPair _ _ | loadSPHL | loadHLSP _ | aluImm _ _ | incPair _
  | decPair _ | addHL _ | addSP _ | rotateA _ | daa | cpl | scf | ccf | jp _ _ | jpHL | jr _ _
  | invalid _ => []

namespace Core

/-- Registers and bus with a journal around the bus. -/
def noted (s : Core β) (log : List Access) : Core (Journal β) :=
  ⟨s.regs, ⟨s.bus, log⟩⟩

omit [Bus β] in
theorem regs_noted (s : Core β) (log : List Access) : (s.noted log).regs = s.regs := rfl

omit [Bus β] in
theorem modifyRegs_noted (s : Core β) (log : List Access) (f : RegisterFile → RegisterFile) :
    (s.noted log).modifyRegs f = (s.modifyRegs f).noted log :=
  rfl

omit [Bus β] in
theorem jump_noted (s : Core β) (log : List Access) (target : UInt16) :
    (s.noted log).jump target = (s.jump target).noted log :=
  rfl

variable (s : Core β) (log : List Access)

theorem readOperand_noted (r : Reg8) :
    (s.noted log).readOperand r =
      ((s.readOperand r).1, (s.readOperand r).2.noted (log ++ r.reads s.regs)) := by
  cases r with
  | atHL => rfl
  | _ => simp [readOperand, RegisterFile.get?, noted, Reg8.reads]

theorem regs_readOperand (r : Reg8) : (s.readOperand r).2.regs = s.regs := by
  cases r <;> rfl

theorem writeOperand_noted (r : Reg8) (v : UInt8) :
    (s.noted log).writeOperand r v = (s.writeOperand r v).noted (log ++ r.writes s.regs) := by
  cases r with
  | atHL => rfl
  | _ => simp [writeOperand, noted, Reg8.writes]

theorem push_noted (w : UInt16) :
    (s.noted log).push w = (s.push w).noted (log ++ s.regs.pushes) := by
  simp [push, noted, modifyRegs, writeAt, Bus.write, RegisterFile.pushes]

theorem pop_noted :
    (s.noted log).pop = (s.pop.1, s.pop.2.noted (log ++ s.regs.pops)) := by
  simp [pop, noted, modifyRegs, readAt, ByteSource.read, RegisterFile.pops]

theorem call_noted (target : UInt16) :
    (s.noted log).call target = (s.call target).noted (log ++ s.regs.pushes) :=
  congrArg (·.jump target) (s.push_noted log s.regs.pc)

theorem ret_noted : (s.noted log).ret = s.ret.noted (log ++ s.regs.pops) := by
  rw [ret, pop_noted]
  rfl

end Core

/-- An operation does through a journal what it does without it, and the journal grows by the
accesses of the operation. -/
theorem Operation.effect_noted (op : Operation) (s : Core β) (log : List Access) :
    op.effect (s.noted log) = (op.effect s).noted (log ++ op.accesses s.regs) := by
  cases op with
  | load dst src =>
    simp only [effect, accesses, Core.readOperand_noted, Core.writeOperand_noted,
      Core.regs_readOperand, List.append_assoc]
  | loadImm dst n => exact s.writeOperand_noted log dst n
  | alu op r | bit i r =>
    simp only [effect, accesses, Core.readOperand_noted]
    rfl
  | inc r | dec r | shift op r | res i r | set i r =>
    simp only [effect, accesses, Core.readOperand_noted, Core.writeOperand_noted,
      Core.modifyRegs_noted, Core.regs_noted, Core.regs_readOperand, List.append_assoc]
  | storeSP addr =>
    simp only [effect, accesses, Core.noted, Bus.writeWord, Bus.write, List.append_assoc,
      List.cons_append, List.nil_append]
  | push p => exact s.push_noted log (s.regs.stackPair p)
  | pop p =>
    simp only [effect, accesses, Core.pop_noted]
    rfl
  | rst v => exact s.call_noted log v.toUInt16
  | reti =>
    simp only [effect, accesses, Core.ret_noted]
    rfl
  | jp cond _ | jr cond _ | call cond _ | ret cond =>
    by_cases htaken : s.regs.flags.allow cond = true
    · simp only [effect, accesses, Core.regs_noted, Core.jump_noted, Core.call_noted,
        Core.ret_noted, htaken, if_true, List.append_nil]
    · simp only [effect, accesses, Core.regs_noted, htaken, Bool.false_eq_true, if_false,
        List.append_nil]
  | storeAt p | loadAt p | storeAbs addr | loadAbs addr | storeHigh n | loadHigh n | storeHighC
  | loadHighC => rfl
  | _ =>
    simp only [accesses, List.append_nil]
    rfl

theorem Operation.execute_noted (op : Operation) (s : Core β) (log : List Access) :
    op.execute (s.noted log) =
      ((op.execute s).1, (op.execute s).2.noted (log ++ op.accesses s.regs)) := by
  by_cases hop : ∃ b, op = .invalid b
  · obtain ⟨b, rfl⟩ := hop
    simp only [execute, accesses, List.append_nil]
    rfl
  · rw [not_exists] at hop
    rw [execute_eq_of_ne_invalid hop, execute_eq_of_ne_invalid hop, effect_noted]
    rfl

/-! ### Accesses of steps -/

/-- The accesses of a fetch: as many bytes as the encoding has, from its start on. -/
def fetchAccesses (pc : UInt16) (length : Nat) : List Access :=
  (List.range length).map fun i => .read (pc + UInt16.ofNat i)

theorem fetch_journal (pc : UInt16) (bus : β) (log : List Access) :
    fetch pc (⟨bus, log⟩ : Journal β) = ((fetch pc bus).1,
      ⟨(fetch pc bus).2, log ++ fetchAccesses pc (fetch pc bus).1.length⟩) := by
  have hread (addr : UInt16) (bus : β) (log : List Access) :
      ByteSource.read addr (⟨bus, log⟩ : Journal β) = ((ByteSource.read addr bus).1,
        ⟨(ByteSource.read addr bus).2, log ++ [.read addr]⟩) := rfl
  have hnext : pc + 1 + 1 = pc + 2 := by rw [UInt16.add_assoc]; rfl
  unfold fetch
  simp only [hread]
  split <;> simp [fetchAccesses, List.range_succ, ByteSource.readWord, hread, hnext]

namespace Cpu

/-- The accesses of a step, in order. -/
def accesses (c : Cpu) (bus : β) : List Access :=
  match c.upcoming? bus with
  | none => []
  | some op =>
    fetchAccesses c.regs.pc (fetch c.regs.pc bus).1.length ++ op.accesses (c.fetched bus).regs

theorem upcoming?_journal (c : Cpu) (bus : β) (log : List Access) :
    c.upcoming? (⟨bus, log⟩ : Journal β) = c.upcoming? bus := by
  unfold upcoming?
  rw [fetch_journal]
  rfl

theorem executeNext_journal (c : Cpu) (bus : β) (log : List Access) :
    c.executeNext (⟨bus, log⟩ : Journal β) = ((c.executeNext bus).1, (c.executeNext bus).2.1,
      ⟨(c.executeNext bus).2.2, log ++ (fetchAccesses c.regs.pc (fetch c.regs.pc bus).1.length ++
        (fetch c.regs.pc bus).1.operation.accesses (c.fetched bus).regs)⟩) := by
  have hexec := (fetch c.regs.pc bus).1.operation.execute_noted (c.fetched bus)
    (log ++ fetchAccesses c.regs.pc (fetch c.regs.pc bus).1.length)
  simp only [Core.noted, fetched] at hexec
  unfold executeNext
  simp only [fetch_journal, hexec, fetched, List.append_assoc]
  split <;> rfl

/-- A step does through a journal what it does without it, and the journal grows by the accesses
of the step. -/
theorem step_journal (c : Cpu) (bus : β) (log : List Access) :
    c.step (⟨bus, log⟩ : Journal β) = ((c.step bus).1, (c.step bus).2.1,
      ⟨(c.step bus).2.2, log ++ c.accesses bus⟩) := by
  cases hup : c.upcoming? bus with
  | none =>
    have hjournal : c.upcoming? (⟨bus, log⟩ : Journal β) = none := by
      rw [upcoming?_journal, hup]
    rw [step_of_upcoming?_eq_none hup, step_of_upcoming?_eq_none hjournal, accesses, hup,
      List.append_nil]
  | some op =>
    have hjournal : c.upcoming? (⟨bus, log⟩ : Journal β) = some op := by
      rw [upcoming?_journal, hup]
    obtain ⟨rfl, hstep⟩ := step_of_upcoming?_eq_some hup
    rw [hstep, (step_of_upcoming?_eq_some hjournal).2, executeNext_journal, accesses, hup]
    rfl

/-- Several steps: their results, in order, and the state after them. A step that fails is
followed by the next one like any other. -/
def steps : (n : Nat) → Cpu → β → List (Except CpuError Nat) × Cpu × β
  | 0, c, bus => ([], c, bus)
  | n + 1, c, bus =>
    let (result, c, bus) := c.step bus
    let (results, c, bus) := steps n c bus
    (result :: results, c, bus)

/-- The accesses of several steps, in order. -/
def stepsAccesses : (n : Nat) → Cpu → β → List Access
  | 0, _, _ => []
  | n + 1, c, bus => c.accesses bus ++ stepsAccesses n (c.step bus).2.1 (c.step bus).2.2

theorem steps_journal (n : Nat) (c : Cpu) (bus : β) (log : List Access) :
    c.steps n (⟨bus, log⟩ : Journal β) = ((c.steps n bus).1, (c.steps n bus).2.1,
      ⟨(c.steps n bus).2.2, log ++ c.stepsAccesses n bus⟩) := by
  induction n generalizing c bus log with
  | zero => simp [steps, stepsAccesses]
  | succ n ih => simp only [steps, stepsAccesses, step_journal, ih, List.append_assoc]

end Cpu

end Sm83
