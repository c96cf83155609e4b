import Mathlib.Data.Set.Defs
import Sm83.Proofs.Bus.Journal

/-!
# Simulations between buses

Two buses may answer alike on some addresses and differently elsewhere. A simulation on a set of
addresses is a relation between the states of two buses that accesses to those addresses cannot
tell apart and preserve. Then the processor cannot tell the buses apart either, as long as its
accesses stay in the set.

## Main definitions

* `Bus.Simulation S R` — the relation `R` is a simulation on the addresses of `S`.
* `Within S log` — all accesses of a journal are to addresses of `S`.
* `Core.Related R` — equal registers and related buses.

## Main results

* `Core.Related.effect`, `Bus.Simulation.fetch` — operations and fetches within the set.
* `Bus.Simulation.step`, `Bus.Simulation.steps` — steps and runs within the set have equal results,
  leave equal processors and related buses, and make the same accesses.
* `Bus.Simulation.serviceInterrupts` — the same for the service of interrupts.
-/

namespace Sm83

/-- All accesses of a journal are to addresses of `S`. -/
def Within (S : Set UInt16) (log : List Access) : Prop :=
  ∀ x ∈ log, x.address ∈ S

section Within

variable {S : Set UInt16}

theorem within_append {l l' : List Access} : Within S (l ++ l') ↔ Within S l ∧ Within S l' :=
  List.forall_mem_append

theorem within_cons {x : Access} {l : List Access} :
    Within S (x :: l) ↔ x.address ∈ S ∧ Within S l :=
  List.forall_mem_cons

theorem within_fetchAccesses {pc : UInt16} {n : Nat} :
    Within S (fetchAccesses pc n) ↔ ∀ i < n, pc + UInt16.ofNat i ∈ S := by
  simp [Within, fetchAccesses, Access.address]

end Within

variable {β : Type u} {γ : Type v} [Bus β] [Bus γ]

/-- A relation between the states of two buses that accesses to addresses of `S` cannot tell
apart, and that they preserve. -/
structure Bus.Simulation (S : Set UInt16) (R : β → γ → Prop) : Prop where
  /-- Reads give the same byte. -/
  read_eq {b : β} {c : γ} {a : UInt16} :
    R b c → a ∈ S → (ByteSource.read a b).1 = (ByteSource.read a c).1
  /-- Reads preserve the relation. -/
  read {b : β} {c : γ} {a : UInt16} :
    R b c → a ∈ S → R (ByteSource.read a b).2 (ByteSource.read a c).2
  /-- Writes preserve the relation. -/
  write {b : β} {c : γ} {a : UInt16} (v : UInt8) :
    R b c → a ∈ S → R (Bus.write a v b) (Bus.write a v c)
  /-- The same interrupts are pending. -/
  pending_eq {b : β} {c : γ} : R b c → Bus.pending b = Bus.pending c

/-- Equal registers and related buses. -/
structure Core.Related (R : β → γ → Prop) (s : Core β) (t : Core γ) : Prop where
  regs_eq : s.regs = t.regs
  bus : R s.bus t.bus

/-! ### Operations -/

namespace Core.Related

variable {S : Set UInt16} {R : β → γ → Prop} {s : Core β} {t : Core γ}

omit [Bus β] [Bus γ] in
theorem modifyRegs (h : Related R s t) (f : RegisterFile → RegisterFile) :
    Related R (s.modifyRegs f) (t.modifyRegs f) :=
  ⟨congrArg f h.regs_eq, h.bus⟩

omit [Bus β] [Bus γ] in
theorem jump (h : Related R s t) (target : UInt16) : Related R (s.jump target) (t.jump target) :=
  h.modifyRegs _

variable (sim : Bus.Simulation S R)

include sim

theorem readAt (h : Related R s t) {a : UInt16} (ha : a ∈ S) :
    (s.readAt a).1 = (t.readAt a).1 ∧ Related R (s.readAt a).2 (t.readAt a).2 :=
  ⟨sim.read_eq h.bus ha, h.regs_eq, sim.read h.bus ha⟩

theorem writeAt (h : Related R s t) {a : UInt16} (ha : a ∈ S) (v : UInt8) :
    Related R (s.writeAt a v) (t.writeAt a v) :=
  ⟨h.regs_eq, sim.write v h.bus ha⟩

theorem readOperand (h : Related R s t) {r : Reg8} (hr : Within S (r.reads s.regs)) :
    (s.readOperand r).1 = (t.readOperand r).1 ∧
      Related R (s.readOperand r).2 (t.readOperand r).2 := by
  cases r with
  | atHL =>
    have hread := h.readAt sim (within_cons.mp hr).1
    simpa only [Core.readOperand, RegisterFile.get?, Access.address, ← h.regs_eq] using hread
  | _ => simp [Core.readOperand, RegisterFile.get?, h.regs_eq, h]

theorem writeOperand (h : Related R s t) {r : Reg8} (hr : Within S (r.writes s.regs)) (v : UInt8) :
    Related R (s.writeOperand r v) (t.writeOperand r v) := by
  cases r with
  | atHL =>
    have hwrite := h.writeAt sim (within_cons.mp hr).1 v
    simpa only [Core.writeOperand, Access.address, ← h.regs_eq] using hwrite
  | _ => exact h.modifyRegs (·.set _ v)

theorem push (h : Related R s t) (hs : Within S s.regs.pushes) (w : UInt16) :
    Related R (s.push w) (t.push w) := by
  obtain ⟨r, b⟩ := s
  obtain ⟨r', c⟩ := t
  obtain ⟨(rfl : r = r'), hbus⟩ := h
  obtain ⟨hhigh, hrest⟩ := within_cons.mp hs
  obtain ⟨hlow, -⟩ := within_cons.mp hrest
  exact ⟨rfl, sim.write _ (sim.write _ hbus hhigh) hlow⟩

theorem pop (h : Related R s t) (hs : Within S s.regs.pops) :
    s.pop.1 = t.pop.1 ∧ Related R s.pop.2 t.pop.2 := by
  obtain ⟨r, b⟩ := s
  obtain ⟨r', c⟩ := t
  obtain ⟨(rfl : r = r'), hbus⟩ := h
  obtain ⟨hlow, hrest⟩ := within_cons.mp hs
  obtain ⟨hhigh, -⟩ := within_cons.mp hrest
  have hbus' := sim.read hbus hlow
  exact ⟨congr (congrArg word (sim.read_eq hbus' hhigh)) (sim.read_eq hbus hlow),
    rfl, sim.read hbus' hhigh⟩

theorem call (h : Related R s t) (hs : Within S s.regs.pushes) (target : UInt16) :
    Related R (s.call target) (t.call target) := by
  unfold Core.call
  rw [← h.regs_eq]
  exact (h.push sim hs _).jump target

theorem ret (h : Related R s t) (hs : Within S s.regs.pops) : Related R s.ret t.ret := by
  obtain ⟨htarget, hpop⟩ := h.pop sim hs
  unfold Core.ret
  dsimp only
  rw [htarget]
  exact hpop.jump _

/-- A byte operand that is read, and then written with a value computed from it and the flags. -/
theorem modifyOperand (h : Related R s t) {r : Reg8}
    (hop : Within S (r.reads s.regs ++ r.writes s.regs)) (f : UInt8 → Flags → UInt8 × Flags) :
    Related R
      (((s.readOperand r).2.writeOperand r
          (f (s.readOperand r).1 (s.readOperand r).2.regs.flags).1).modifyRegs fun r' =>
        { r' with flags := (f (s.readOperand r).1 (s.readOperand r).2.regs.flags).2 })
      (((t.readOperand r).2.writeOperand r
          (f (t.readOperand r).1 (t.readOperand r).2.regs.flags).1).modifyRegs fun r' =>
        { r' with flags := (f (t.readOperand r).1 (t.readOperand r).2.regs.flags).2 }) := by
  obtain ⟨hreads, hwrites⟩ := within_append.mp hop
  obtain ⟨hv, hs⟩ := h.readOperand sim hreads
  rw [← hv, ← hs.regs_eq]
  exact (hs.writeOperand sim (by rwa [Core.regs_readOperand]) _).modifyRegs _

/-- An operation whose accesses stay in the set treats related buses alike. -/
theorem effect (h : Related R s t) {op : Operation} (hop : Within S (op.accesses s.regs)) :
    Related R (op.effect s) (op.effect t) := by
  cases op with
  | nop | stop | halt | ei | invalid _ => exact h
  | di | loadPair _ _ | loadSPHL | loadHLSP _ | aluImm _ _ | incPair _ | decPair _ | addHL _
  | addSP _ | rotateA _ | daa | cpl | scf | ccf =>
    simp only [Operation.effect, Core.combine]
    exact h.modifyRegs _
  | load dst src =>
    obtain ⟨hreads, hwrites⟩ := within_append.mp hop
    obtain ⟨hv, hs⟩ := h.readOperand sim hreads
    simp only [Operation.effect, ← hv]
    exact hs.writeOperand sim (by rwa [Core.regs_readOperand]) _
  | loadImm dst n => exact h.writeOperand sim hop n
  | storeAt p =>
    have hp := h.modifyRegs fun r => (r.pointer p).2
    simp only [Operation.effect, ← h.regs_eq]
    simp only [Core.modifyRegs, ← h.regs_eq] at hp
    exact hp.writeAt sim (within_cons.mp hop).1 _
  | loadAt p =>
    have hp := h.modifyRegs fun r => (r.pointer p).2
    simp only [Core.modifyRegs, ← h.regs_eq] at hp
    obtain ⟨hv, hs⟩ := hp.readAt sim (within_cons.mp hop).1
    simp only [Access.address] at hv hs
    simp only [Operation.effect, ← h.regs_eq, ← hv]
    exact hs.modifyRegs _
  | storeAbs _ | storeHigh _ | storeHighC =>
    simp only [Operation.effect, ← h.regs_eq]
    exact h.writeAt sim (within_cons.mp hop).1 _
  | loadAbs _ | loadHigh _ | loadHighC =>
    obtain ⟨hv, hs⟩ := h.readAt sim (within_cons.mp hop).1
    simp only [Access.address] at hv hs
    simp only [Operation.effect, ← h.regs_eq, ← hv]
    exact hs.modifyRegs _
  | storeSP addr =>
    obtain ⟨hlow, hrest⟩ := within_cons.mp hop
    obtain ⟨hhigh, -⟩ := within_cons.mp hrest
    simp only [Operation.effect, ← h.regs_eq]
    exact ⟨rfl, sim.write _ (sim.write _ h.bus hlow) hhigh⟩
  | alu op r | bit i r =>
    obtain ⟨hv, hs⟩ := h.readOperand sim hop
    simp only [Operation.effect, ← hv]
    exact hs.modifyRegs _
  | inc r => exact h.modifyOperand sim hop increment
  | dec r => exact h.modifyOperand sim hop decrement
  | shift op r =>
    exact h.modifyOperand sim hop fun v flags =>
      ((op.apply v flags.c).1, { z := (op.apply v flags.c).1 == 0, c := (op.apply v flags.c).2 })
  | res i r | set i r =>
    obtain ⟨hreads, hwrites⟩ := within_append.mp hop
    obtain ⟨hv, hs⟩ := h.readOperand sim hreads
    simp only [Operation.effect, ← hv]
    exact hs.writeOperand sim (by rwa [Core.regs_readOperand]) _
  | push p =>
    simp only [Operation.effect, ← h.regs_eq]
    exact h.push sim hop _
  | pop p =>
    obtain ⟨hw, hs⟩ := h.pop sim hop
    simp only [Operation.effect, ← hw]
    exact hs.modifyRegs _
  | rst v => exact h.call sim hop _
  | reti =>
    simp only [Operation.effect]
    exact (h.ret sim hop).modifyRegs _
  | jpHL =>
    simp only [Operation.effect, ← h.regs_eq]
    exact h.jump _
  | jp cond _ | jr cond _ =>
    simp only [Operation.effect, ← h.regs_eq]
    split_ifs
    · exact h.jump _
    · exact h
  | call cond target =>
    simp only [Operation.effect, ← h.regs_eq]
    simp only [Operation.accesses] at hop
    split_ifs at hop ⊢
    · exact h.call sim hop target
    · exact h
  | ret cond =>
    simp only [Operation.effect, ← h.regs_eq]
    simp only [Operation.accesses] at hop
    split_ifs at hop ⊢
    · exact h.ret sim hop
    · exact h

theorem execute (h : Related R s t) {op : Operation} (hop : Within S (op.accesses s.regs)) :
    (op.execute s).1 = (op.execute t).1 ∧ Related R (op.execute s).2 (op.execute t).2 := by
  by_cases hinvalid : ∃ b, op = .invalid b
  · obtain ⟨b, rfl⟩ := hinvalid
    exact ⟨by simp only [Operation.execute, h.regs_eq], h⟩
  · rw [not_exists] at hinvalid
    rw [Operation.execute_eq_of_ne_invalid hinvalid, Operation.execute_eq_of_ne_invalid hinvalid,
      h.regs_eq]
    exact ⟨rfl, h.effect sim hop⟩

end Core.Related

/-! ### Steps -/

namespace Bus.Simulation

variable {S : Set UInt16} {R : β → γ → Prop} {b : β} {c : γ} (sim : Bus.Simulation S R)

include sim

/-- A simulation read from its other side. -/
theorem symm : Bus.Simulation S fun c b => R b c where
  read_eq h ha := (sim.read_eq h ha).symm
  read h ha := sim.read h ha
  write v h ha := sim.write v h ha
  pending_eq h := (sim.pending_eq h).symm

/-- Encodings within the set are read alike. -/
theorem fetch (h : R b c) {pc : UInt16}
    (hs : Within S (fetchAccesses pc (Sm83.fetch pc b).1.length)) :
    (Sm83.fetch pc b).1 = (Sm83.fetch pc c).1 ∧ R (Sm83.fetch pc b).2 (Sm83.fetch pc c).2 := by
  rw [length_fetch, within_fetchAccesses] at hs
  have hpc : pc ∈ S := by simpa using hs 0 (Template.one_le_size _)
  have hopcode := sim.read_eq h hpc
  have hR := sim.read h hpc
  cases htemplate : template (ByteSource.read pc b).1 with
  | plain op =>
    rw [fetch_of_template_plain htemplate, fetch_of_template_plain (hopcode ▸ htemplate)]
    exact ⟨rfl, hR⟩
  | byte op =>
    rw [htemplate] at hs
    have hoperand : pc + 1 ∈ S := hs 1 (Nat.lt_succ_self 1)
    rw [fetch_of_template_byte htemplate, fetch_of_template_byte (hopcode ▸ htemplate),
      sim.read_eq hR hoperand]
    exact ⟨rfl, sim.read hR hoperand⟩
  | word op =>
    rw [htemplate] at hs
    have hlow : pc + 1 ∈ S := hs 1 (by simp [Template.size])
    have hhigh : pc + 1 + 1 ∈ S := by
      rw [UInt16.add_assoc]
      exact hs 2 (Nat.lt_succ_self 2)
    rw [fetch_of_template_word htemplate, fetch_of_template_word (hopcode ▸ htemplate)]
    simp only [ByteSource.readWord, sim.read_eq hR hlow, sim.read_eq (sim.read hR hlow) hhigh,
      sim.read (sim.read hR hlow) hhigh, and_self]

theorem executeNext (h : R b c) {p : Cpu}
    (hfetch : Within S (fetchAccesses p.regs.pc (Sm83.fetch p.regs.pc b).1.length))
    (hop : Within S ((Sm83.fetch p.regs.pc b).1.operation.accesses (p.fetched b).regs)) :
    (p.executeNext b).1 = (p.executeNext c).1 ∧ (p.executeNext b).2.1 = (p.executeNext c).2.1 ∧
      R (p.executeNext b).2.2 (p.executeNext c).2.2 := by
  obtain ⟨heq, hR⟩ := sim.fetch h hfetch
  have hfetched : Core.Related R (p.fetched b) (p.fetched c) :=
    ⟨by simp only [Cpu.fetched, heq], hR⟩
  obtain ⟨hresult, hafter⟩ := hfetched.execute sim hop
  simp only [Cpu.fetched, heq] at hresult hafter
  simp only [Cpu.executeNext, heq, hresult]
  split
  · exact ⟨rfl, by rw [hafter.regs_eq], hafter.bus⟩
  · exact ⟨rfl, by rw [hafter.regs_eq], hafter.bus⟩

/-- A step within the set has the same result on related buses, leaves the same processor and
related buses, and makes the same accesses. -/
theorem step (h : R b c) {p : Cpu} (hs : Within S (p.accesses b)) :
    (p.step b).1 = (p.step c).1 ∧ (p.step b).2.1 = (p.step c).2.1 ∧
      R (p.step b).2.2 (p.step c).2.2 ∧ p.accesses b = p.accesses c := by
  by_cases hidle : p.stopped || (p.halted && Bus.pending b == 0)
  · have hb : p.upcoming? b = none := by simp only [Cpu.upcoming?, hidle, if_true]
    have hc : p.upcoming? c = none := by
      rw [sim.pending_eq h] at hidle
      simp only [Cpu.upcoming?, hidle, if_true]
    rw [Cpu.step_of_upcoming?_eq_none hb, Cpu.step_of_upcoming?_eq_none hc]
    exact ⟨rfl, rfl, h, by rw [Cpu.accesses, Cpu.accesses, hb, hc]⟩
  · have hb : p.upcoming? b = some (Sm83.fetch p.regs.pc b).1.operation := by
      simp only [Cpu.upcoming?, hidle, Bool.false_eq_true, if_false]
    have hc : p.upcoming? c = some (Sm83.fetch p.regs.pc c).1.operation := by
      rw [sim.pending_eq h] at hidle
      simp only [Cpu.upcoming?, hidle, Bool.false_eq_true, if_false]
    simp only [Cpu.accesses, hb] at hs
    obtain ⟨hfetch, hop⟩ := within_append.mp hs
    obtain ⟨heq, -⟩ := sim.fetch h hfetch
    obtain ⟨hresult, hcpu, hR⟩ := sim.executeNext h (p := { p with halted := false }) hfetch hop
    rw [(Cpu.step_of_upcoming?_eq_some hb).2, (Cpu.step_of_upcoming?_eq_some hc).2]
    exact ⟨hresult, hcpu, hR, by simp only [Cpu.accesses, hb, hc, Cpu.fetched, heq]⟩

/-- If the withdrawal of requests preserves the relation, then so does the service of interrupts
with its stack in the set, which takes the same time and leaves the same processor. -/
theorem serviceInterrupts
    (hack : ∀ (i : Interrupt) {b c}, R b c → R (Bus.acknowledge i b) (Bus.acknowledge i c))
    (h : R b c) {p : Cpu} (hs : Within S p.regs.pushes) :
    (p.serviceInterrupts b).1 = (p.serviceInterrupts c).1 ∧
      (p.serviceInterrupts b).2.1 = (p.serviceInterrupts c).2.1 ∧
      R (p.serviceInterrupts b).2.2 (p.serviceInterrupts c).2.2 := by
  have hdispatch : p.dispatch? b = p.dispatch? c := by
    rw [Cpu.dispatch?, Cpu.dispatch?, sim.pending_eq h]
  cases hb : p.dispatch? b with
  | none =>
    rw [Cpu.serviceInterrupts_of_dispatch?_none hb,
      Cpu.serviceInterrupts_of_dispatch?_none (hdispatch.symm.trans hb), sim.pending_eq h]
    exact ⟨rfl, rfl, h⟩
  | some i =>
    have hstart : Core.Related R ⟨{ p.regs with ime := false }, Bus.acknowledge i b⟩
        ⟨{ p.regs with ime := false }, Bus.acknowledge i c⟩ := ⟨rfl, hack i h⟩
    obtain ⟨hregs, hbus⟩ := hstart.call sim hs i.vector
    rw [Cpu.serviceInterrupts_of_dispatch?_some hb,
      Cpu.serviceInterrupts_of_dispatch?_some (hdispatch.symm.trans hb)]
    exact ⟨rfl, by simp only [hregs], hbus⟩

/-- Steps within the set have the same results on related buses, leave the same processor and
related buses, and make the same accesses. -/
theorem steps (n : Nat) (h : R b c) {p : Cpu} (hs : Within S (p.stepsAccesses n b)) :
    (p.steps n b).1 = (p.steps n c).1 ∧ (p.steps n b).2.1 = (p.steps n c).2.1 ∧
      R (p.steps n b).2.2 (p.steps n c).2.2 ∧ p.stepsAccesses n b = p.stepsAccesses n c := by
  induction n generalizing p b c with
  | zero => exact ⟨rfl, rfl, h, rfl⟩
  | succ n ih =>
    obtain ⟨hfirst, hrest⟩ := within_append.mp hs
    obtain ⟨hresult, hcpu, hR, haccesses⟩ := sim.step h hfirst
    obtain ⟨hresults, hcpu', hR', haccesses'⟩ := ih hR hrest
    rw [hcpu] at hresults hcpu' hR' haccesses'
    simp only [Cpu.steps, Cpu.stepsAccesses, hresult, hcpu, haccesses]
    exact ⟨congrArg _ hresults, hcpu', hR', congrArg _ haccesses'⟩

/-- A step that stays within the set on one of two related buses has the same result on both, and
leaves the same processor and related buses. -/
theorem step_of_within_or (h : R b c) {p : Cpu}
    (hs : Within S (p.accesses b) ∨ Within S (p.accesses c)) :
    (p.step b).1 = (p.step c).1 ∧ (p.step b).2.1 = (p.step c).2.1 ∧
      R (p.step b).2.2 (p.step c).2.2 := by
  rcases hs with hs | hs
  · obtain ⟨hresult, hcpu, hR, -⟩ := sim.step h hs
    exact ⟨hresult, hcpu, hR⟩
  · obtain ⟨hresult, hcpu, hR, -⟩ := sim.symm.step h hs
    exact ⟨hresult.symm, hcpu.symm, hR⟩

/-- Steps that stay within the set on one of two related buses have the same results on both, and
leave the same processor and related buses. -/
theorem steps_of_within_or (n : Nat) (h : R b c) {p : Cpu}
    (hs : Within S (p.stepsAccesses n b) ∨ Within S (p.stepsAccesses n c)) :
    (p.steps n b).1 = (p.steps n c).1 ∧ (p.steps n b).2.1 = (p.steps n c).2.1 ∧
      R (p.steps n b).2.2 (p.steps n c).2.2 := by
  rcases hs with hs | hs
  · obtain ⟨hresults, hcpu, hR, -⟩ := sim.steps n h hs
    exact ⟨hresults, hcpu, hR⟩
  · obtain ⟨hresults, hcpu, hR, -⟩ := sim.symm.steps n h hs
    exact ⟨hresults.symm, hcpu.symm, hR⟩

end Bus.Simulation

end Sm83
