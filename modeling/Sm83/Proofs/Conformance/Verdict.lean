import Mathlib.Algebra.Group.Nat.Defs
import Mathlib.Tactic.SplitIfs
import Sm83.Conformance.Case
import Sm83.Proofs.Machine.Flat

/-!
# Verdicts on conformance cases

A case passes if the step from its first state succeeds and everything that the second state tells
is so afterwards. What a case looks at is a list of checks, in a fixed order; the differences that a
verdict tells are those of the checks that do not hold, one for each and in that order. So no check
is left out and none fails without being told.

## Main definitions

* `Snapshot.byteAt`, `Snapshot.Describes` — the bytes and the machine that a snapshot stands for.
* `ConformanceCase.Check`, `ConformanceCase.checks` — what a case looks at, in order.
* `Verdict.ofDifferences` — the verdict that tells the given differences.
* `ConformanceCase.checkedVerdict` — the verdict with clocks in 32 bits.

## Main results

* `Snapshot.describes_machine` — the machine that a case starts from.
* `ConformanceCase.differences_eq` — the differences are those of the checks that do not hold.
* `ConformanceCase.checkedVerdict_eq` — 32 bits are enough below `2 ^ 30` machine cycles.
* `verdict_is_exact` — all of this together.
-/

namespace Sm83

/-! ### The machine of a snapshot -/

namespace Memory

/-- After writes in flat mode an address holds the last byte written there. -/
theorem read8_foldl_write8 {m : Memory} (h : m.isFlat = true) (entries : List (UInt16 × UInt8))
    (a : UInt16) :
    (entries.foldl (fun m (addr, v) => m.write8 addr v) m).read8 a =
      (entries.reverse.lookup a).getD (m.read8 a) := by
  induction entries generalizing m with
  | nil => rfl
  | cons entry entries ih =>
    obtain ⟨b, v⟩ := entry
    rw [List.foldl_cons, ih ((isFlat_write8 m b v).trans h), List.reverse_cons, List.lookup_append,
      Option.getD_or, read8_write8_of_isFlat h]
    by_cases hab : a = b
    · simp [hab]
    · simp [hab, List.lookup_cons, beq_false_of_ne hab]

/-- Writes in flat mode leave everything but the RAM as it was made. -/
theorem foldl_write8_emptyFlat (entries : List (UInt16 × UInt8)) :
    ∃ ram, entries.foldl (fun m (addr, v) => m.write8 addr v) emptyFlat =
      { emptyFlat with flat := some ram } := by
  let IsFlat (m : Memory) : Prop := ∃ ram, m = { emptyFlat with flat := some ram }
  have hwrite (m : Memory) (h : IsFlat m) (entry : UInt16 × UInt8) (_ : entry ∈ entries) :
      IsFlat (m.write8 entry.1 entry.2) := by
    obtain ⟨ram, rfl⟩ := h
    exact ⟨ram.set entry.1.toFin entry.2, rfl⟩
  exact List.foldlRecOn entries _ (motive := IsFlat) ⟨Vector.replicate 0x10000 0, rfl⟩ hwrite

end Memory

namespace Snapshot

/-- The byte that a snapshot gives to an address: the last one listed for it, and zero if none
is. -/
def byteAt (s : Snapshot) (a : UInt16) : UInt8 :=
  (s.ram.reverse.lookup a).getD 0

/-- A machine as a snapshot tells, and in everything else as a new machine in flat mode. Only the
upper four bits of `F` exist; the latches are set by any byte but zero. -/
structure Describes (s : Snapshot) (m : Machine) : Prop where
  pc : m.cpu.regs.pc = s.pc
  sp : m.cpu.regs.sp = s.sp
  a : m.cpu.regs.a = s.a
  b : m.cpu.regs.b = s.b
  c : m.cpu.regs.c = s.c
  d : m.cpu.regs.d = s.d
  e : m.cpu.regs.e = s.e
  f : m.cpu.regs.f = s.f &&& 0xF0
  h : m.cpu.regs.h = s.h
  l : m.cpu.regs.l = s.l
  ime : m.cpu.regs.ime = true ↔ s.ime ≠ 0
  eiPending : m.cpu.eiPending = true ↔ ∃ v, s.ei = some v ∧ v ≠ 0
  others : m.cpu.halted = false ∧ m.cpu.stopped = false ∧ m.cpu.clocks = 0
  memory : ∃ ram, m.memory = { Memory.emptyFlat with flat := some ram }
  read8 : ∀ addr, m.memory.read8 addr = s.byteAt addr

theorem describes_machine (s : Snapshot) : s.Describes s.machine where
  pc := rfl
  sp := rfl
  a := rfl
  b := rfl
  c := rfl
  d := rfl
  e := rfl
  f := Flags.toByte_ofByte s.f
  h := rfl
  l := rfl
  ime := bne_iff_ne
  eiPending := by
    change s.ei.any (· != 0) = true ↔ _
    simp only [Option.any_eq_true, bne_iff_ne]
  others := ⟨rfl, rfl, rfl⟩
  memory := Memory.foldl_write8_emptyFlat s.ram
  read8 addr := by
    have hzero : Memory.emptyFlat.read8 addr = 0 := by simp [Memory.emptyFlat, Memory.read8]
    rw [machine, Memory.read8_foldl_write8 rfl, hzero]
    rfl

end Snapshot

/-! ### Checks -/

/-- Whether what was wanted is what was got. -/
def Difference.Fits : Difference → Prop
  | register _ want got => want = got
  | ram _ want got => want = got
  | clocks want got => want = got

instance : DecidablePred Difference.Fits
  | .register .. | .ram .. => inferInstanceAs (Decidable (_ = _))
  | .clocks .. => inferInstanceAs (Decidable (_ = _))

/-- To tell something of the members that do not fit is to tell it of all and to keep what does not
fit. -/
theorem Difference.filterMap_eq_filter_map {α : Type u} (tell : α → Difference) (l : List α) :
    l.filterMap (fun x => if (tell x).Fits then none else some (tell x)) =
      (l.map tell).filter fun d => ¬ d.Fits := by
  induction l with
  | nil => rfl
  | cons x l ih =>
    by_cases hfits : (tell x).Fits
    · simp [hfits, ih]
    · simp [hfits, ih]

/-- The verdict on a case with the given differences. -/
def Verdict.ofDifferences : List Difference → Verdict
  | [] => .passed
  | ds => .differs ds

theorem Verdict.ofDifferences_eq_passed_iff {ds : List Difference} :
    ofDifferences ds = .passed ↔ ds = [] := by
  cases ds <;> simp [ofDifferences]

theorem Verdict.ofDifferences_eq_differs_iff {ds ds' : List Difference} :
    ofDifferences ds = .differs ds' ↔ ds' ≠ [] ∧ ds' = ds := by
  cases ds with
  | nil => simp [ofDifferences]
  | cons d ds =>
    simp only [ofDifferences, Verdict.differs.injEq]
    exact ⟨fun h => h ▸ ⟨List.cons_ne_nil d ds, rfl⟩, fun h => h.2.symm⟩

theorem Verdict.ofDifferences_ne_failed (ds : List Difference) (e : CpuError) :
    ofDifferences ds ≠ .failed e := by
  cases ds <;> simp [ofDifferences]

namespace ConformanceCase

/-- Something that a case looks at after the step. -/
inductive Check where
  | pc | sp | a | b | c | d | e | f | h | l | ime
  /-- The latch, with the byte that is given for it. -/
  | ei (given : UInt8)
  /-- A listed byte of RAM. -/
  | ram (addr : UInt16) (want : UInt8)
  | clocks
  deriving DecidableEq, Repr

/-- The registers and latches that a case looks at; the delayed enabling of interrupts only if a
byte is given for it. -/
def registerChecks (k : ConformanceCase) : List Check :=
  [.pc, .sp, .a, .b, .c, .d, .e, .f, .h, .l, .ime] ++ k.expected.ei.toList.map .ei

/-- The bytes of RAM that a case looks at. -/
def ramChecks (k : ConformanceCase) : List Check :=
  k.expected.ram.map fun (addr, want) => .ram addr want

/-- The clocks are looked at only if there is a list of machine cycles. -/
def clockChecks (k : ConformanceCase) : List Check :=
  if k.cycles = 0 then [] else [.clocks]

/-- What a case looks at, in order. -/
def checks (k : ConformanceCase) : List Check :=
  k.registerChecks ++ k.ramChecks ++ k.clockChecks

namespace Check

variable (k : ConformanceCase) (clocks : Nat) (m : Machine)

/-- Whether a check holds for the clocks of a step and the machine after it. -/
def Holds : Check → Prop
  | pc => m.cpu.regs.pc = k.expected.pc
  | sp => m.cpu.regs.sp = k.expected.sp
  | a => m.cpu.regs.a = k.expected.a
  | b => m.cpu.regs.b = k.expected.b
  | c => m.cpu.regs.c = k.expected.c
  | d => m.cpu.regs.d = k.expected.d
  | e => m.cpu.regs.e = k.expected.e
  | f => m.cpu.regs.f = k.expected.f
  | h => m.cpu.regs.h = k.expected.h
  | l => m.cpu.regs.l = k.expected.l
  | ime => m.cpu.regs.ime = true ↔ k.expected.ime ≠ 0
  | ei given => m.cpu.eiPending = true ↔ given ≠ 0
  | ram addr want => m.memory.read8 addr = want
  | .clocks => clocks = 4 * k.cycles

/-- What is told about a check that does not hold. -/
def difference : Check → Difference
  | pc => .register "pc" k.expected.pc m.cpu.regs.pc
  | sp => .register "sp" k.expected.sp m.cpu.regs.sp
  | a => .register "a" k.expected.a.toUInt16 m.cpu.regs.a.toUInt16
  | b => .register "b" k.expected.b.toUInt16 m.cpu.regs.b.toUInt16
  | c => .register "c" k.expected.c.toUInt16 m.cpu.regs.c.toUInt16
  | d => .register "d" k.expected.d.toUInt16 m.cpu.regs.d.toUInt16
  | e => .register "e" k.expected.e.toUInt16 m.cpu.regs.e.toUInt16
  | f => .register "f" k.expected.f.toUInt16 m.cpu.regs.f.toUInt16
  | h => .register "h" k.expected.h.toUInt16 m.cpu.regs.h.toUInt16
  | l => .register "l" k.expected.l.toUInt16 m.cpu.regs.l.toUInt16
  | ime => .register "ime" (flagWord (k.expected.ime != 0)) (flagWord m.cpu.regs.ime)
  | ei given => .register "ei" (flagWord (given != 0)) (flagWord m.cpu.eiPending)
  | ram addr want => .ram addr want (m.memory.read8 addr)
  | .clocks => .clocks (4 * k.cycles) clocks

theorem flagWord_eq_iff (v : UInt8) (b : Bool) :
    flagWord (v != 0) = flagWord b ↔ (b = true ↔ v ≠ 0) := by
  have hbool : flagWord (v != 0) = flagWord b ↔ (v != 0) = b := by
    cases v != 0 <;> cases b <;> decide
  rw [hbool, ← bne_iff_ne (a := v)]
  cases v != 0 <;> cases b <;> decide

/-- What is told about a check fits exactly if the check holds. -/
theorem fits_difference_iff (check : Check) :
    (check.difference k clocks m).Fits ↔ check.Holds k clocks m := by
  cases check with
  | pc | sp | ram addr want | clocks => exact eq_comm
  | a | b | c | d | e | f | h | l => exact UInt8.toUInt16_inj.trans eq_comm
  | ime | ei given => exact flagWord_eq_iff _ _

instance : DecidablePred (Holds k clocks m) :=
  fun check => decidable_of_iff _ (check.fits_difference_iff k clocks m)

end Check

/-! ### Verdicts -/

variable (k : ConformanceCase)

section Differences

variable (clocks : Nat) (m : Machine)

theorem registerDifferences_eq :
    k.expected.registerDifferences m.cpu =
      (k.registerChecks.map (·.difference k clocks m)).filter fun d => ¬ d.Fits := by
  have hlist : k.registerChecks.map (·.difference k clocks m) =
      (k.expected.compared m.cpu).map fun e => Difference.register e.1 e.2.1 e.2.2 := by
    simp only [registerChecks, Snapshot.compared, List.map_append, List.map_map]
    rfl
  rw [hlist]
  exact Difference.filterMap_eq_filter_map
    (fun e : String × UInt16 × UInt16 => .register e.1 e.2.1 e.2.2) (k.expected.compared m.cpu)

theorem ramDifferences_eq :
    k.expected.ramDifferences m.memory =
      (k.ramChecks.map (·.difference k clocks m)).filter fun d => ¬ d.Fits := by
  rw [ramChecks, List.map_map]
  exact Difference.filterMap_eq_filter_map
    (fun e : UInt16 × UInt8 => .ram e.1 e.2 (m.memory.read8 e.1)) k.expected.ram

theorem clockDifferences_eq :
    k.clockDifferences clocks =
      (k.clockChecks.map (·.difference k clocks m)).filter fun d => ¬ d.Fits := by
  unfold clockDifferences expectedClocks clockChecks
  by_cases hlisted : k.cycles = 0
  · simp [hlisted]
  · by_cases hclocks : clocks = k.cycles * 4
    · simp [hlisted, hclocks, Check.difference, Difference.Fits, Nat.mul_comm]
    · simp [hlisted, hclocks, Check.difference, Difference.Fits, Nat.mul_comm, eq_comm]

/-- **One difference for each check that does not hold,** in the order of the checks. -/
theorem differences_eq :
    k.expected.differences m ++ k.clockDifferences clocks =
      (k.checks.filter fun check => ¬ check.Holds k clocks m).map (·.difference k clocks m) := by
  have hall : (k.checks.map (·.difference k clocks m)).filter (fun d => ¬ d.Fits) =
      (k.checks.filter fun check => ¬ check.Holds k clocks m).map (·.difference k clocks m) := by
    rw [List.filter_map]
    simp only [Function.comp_def, Check.fits_difference_iff]
  rw [← hall, Snapshot.differences, registerDifferences_eq k clocks, ramDifferences_eq k clocks,
    clockDifferences_eq k clocks m, checks]
  simp only [List.map_append, List.filter_append]

end Differences

theorem verdict_of_error {e : CpuError} {after : Cpu × Memory}
    (hstep : k.initial.machine.cpu.step k.initial.machine.memory = (.error e, after)) :
    k.verdict = .failed e := by
  simp only [verdict, hstep]

theorem verdict_of_ok {clocks : Nat} {cpu : Cpu} {memory : Memory}
    (hstep : k.initial.machine.cpu.step k.initial.machine.memory = (.ok clocks, cpu, memory)) :
    k.verdict = .ofDifferences
      (k.expected.differences ⟨cpu, memory⟩ ++ k.clockDifferences clocks) := by
  simp only [verdict, hstep]
  rfl

/-! ### Clocks in 32 bits -/

/-- The clocks that the step should take, counted in 32 bits; `none` where the product with the
number of machine cycles overflows. -/
def checkedClocks (k : ConformanceCase) : Option UInt32 :=
  let cycles := UInt32.ofNat k.cycles
  if cycles.toNat * 4 < 2 ^ 32 then some (cycles * 4) else none

/-- The verdict with clocks in 32 bits; `none` where the clocks that the step should take are looked
at and overflow. -/
def checkedVerdict (k : ConformanceCase) : Option Verdict :=
  let start := k.initial.machine
  match start.cpu.step start.memory with
  | (.error e, _) => some (.failed e)
  | (.ok clocks, cpu, memory) =>
    let ds := k.expected.differences ⟨cpu, memory⟩
    if k.cycles = 0 then some (.ofDifferences ds)
    else k.checkedClocks.map fun want =>
      .ofDifferences (ds ++ if clocks = want.toNat then [] else [.clocks want.toNat clocks])

/-- Below `2 ^ 30` machine cycles the clocks fit. -/
theorem exists_checkedClocks_eq {k : ConformanceCase} (hcycles : k.cycles < 2 ^ 30) :
    ∃ want, k.checkedClocks = some want ∧ want.toNat = k.expectedClocks := by
  have hword : (UInt32.ofNat k.cycles).toNat = k.cycles :=
    UInt32.toNat_ofNat_of_lt' (Nat.lt_trans hcycles (by decide))
  have hfits : k.cycles * 4 < 2 ^ 32 := by omega
  refine ⟨UInt32.ofNat k.cycles * 4, ?_, ?_⟩
  · rw [checkedClocks, hword, if_pos hfits]
  · rw [UInt32.toNat_mul, hword]
    exact Nat.mod_eq_of_lt hfits

theorem checkedVerdict_eq {k : ConformanceCase} (hcycles : k.cycles < 2 ^ 30) :
    k.checkedVerdict = some k.verdict := by
  rcases hstep : k.initial.machine.cpu.step k.initial.machine.memory with
    ⟨e | clocks, cpu, memory⟩
  · rw [k.verdict_of_error hstep]
    simp only [checkedVerdict, hstep]
  · obtain ⟨want, hwant, hexpected⟩ := exists_checkedClocks_eq hcycles
    rw [k.verdict_of_ok hstep]
    simp only [checkedVerdict, hstep, hwant, hexpected, clockDifferences, Option.map_some]
    by_cases hlisted : k.cycles = 0
    · simp [hlisted]
    · simp [hlisted]

end ConformanceCase

/-- **A verdict is exact.** The step of a case starts from the machine in flat mode that its first
snapshot describes, with the bytes of RAM written in the order of the list. The case passes exactly
if the step succeeds and all of its checks hold afterwards, of the registers, of the latches, of
every listed byte, and of the clocks if machine cycles are listed. Else the verdict is the error of
the step, or one difference for each check that does not hold, in the order of the checks and at
least one. With fewer than `2 ^ 30` machine cycles all this is so in 32 bits. -/
theorem verdict_is_exact (k : ConformanceCase) (hcycles : k.cycles < 2 ^ 30) :
    let start := k.initial.machine
    k.initial.Describes start ∧ k.checkedVerdict = some k.verdict ∧
    (k.verdict = .passed ↔ ∃ clocks cpu memory,
      start.cpu.step start.memory = (.ok clocks, cpu, memory) ∧
        ∀ check ∈ k.checks, check.Holds k clocks ⟨cpu, memory⟩) ∧
    (∀ e, k.verdict = .failed e ↔ (start.cpu.step start.memory).1 = .error e) ∧
    (∀ ds, k.verdict = .differs ds ↔ ∃ clocks cpu memory,
      start.cpu.step start.memory = (.ok clocks, cpu, memory) ∧ ds ≠ [] ∧
        ds = (k.checks.filter fun check => ¬ check.Holds k clocks ⟨cpu, memory⟩).map
          (·.difference k clocks ⟨cpu, memory⟩)) := by
  intro start
  refine ⟨k.initial.describes_machine, ConformanceCase.checkedVerdict_eq hcycles, ?_⟩
  rcases hstep : start.cpu.step start.memory with ⟨e | clocks, cpu, memory⟩
  · have hverdict := k.verdict_of_error hstep
    simp [hverdict, eq_comm]
  · have hverdict := k.verdict_of_ok hstep
    rw [k.differences_eq] at hverdict
    refine ⟨?_, fun e => ?_, fun ds => ?_⟩
    · rw [hverdict, Verdict.ofDifferences_eq_passed_iff, List.map_eq_nil_iff,
        List.filter_eq_nil_iff]
      simp
    · rw [hverdict]
      simp [Verdict.ofDifferences_ne_failed]
    · rw [hverdict, Verdict.ofDifferences_eq_differs_iff]
      simp

/-- A processor that is awake at `LD A, B` makes the copy. -/
theorem Cpu.step_of_read8_eq_copy {c : Cpu} {memory : Memory} (hhalted : c.halted = false)
    (hstopped : c.stopped = false) (hread : memory.read8 c.regs.pc = 0x78) :
    c.step memory = (.ok 4,
      c.settle ⟨4, .none⟩ { c.regs with a := c.regs.b, pc := c.regs.pc + 1 }, memory) := by
  have hup : c.upcoming? memory = some (fetch c.regs.pc memory).1.operation :=
    Cpu.upcoming?_of_awake hhalted hstopped
  have htemplate : template 0x78 = .plain (.load .a .b) := rfl
  have hfetch : fetch c.regs.pc memory = (⟨.load .a .b, 1, c.regs.pc + 1⟩, memory) :=
    fetch_of_template_plain (by rw [Memory.read_eq, hread, htemplate])
  have hop : (fetch c.regs.pc memory).1.operation = .load .a .b := by rw [hfetch]
  have hawake : { c with halted := false } = c := by rw [← hhalted]
  rw [(Cpu.step_of_upcoming?_eq_some hup).2, hawake, Cpu.executeNext_of_encodable hop trivial]
  simp only [Cpu.executed, Cpu.fetched, hfetch]
  rfl

/-- `LD A, B` at an address that is listed twice, with bits of `F` that do not exist and an enabling
of interrupts that takes effect. The case passes; with other flags and clocks expected, it is told
of both. -/
theorem verdict_on_copy :
    let initial : Snapshot :=
      { pc := 0xC000, sp := 0xFFFE, a := 0x12, b := 0x34, c := 0, d := 0, e := 0, f := 0x1F, h := 0,
        l := 0, ime := 0, ei := some 7, ram := [(0xC000, 0x00), (0xC000, 0x78)] }
    let expected : Snapshot :=
      { pc := 0xC001, sp := 0xFFFE, a := 0x34, b := 0x34, c := 0, d := 0, e := 0, f := 0x10, h := 0,
        l := 0, ime := 2, ei := some 0, ram := [(0xC000, 0x78), (0x1234, 0x00)] }
    let k : ConformanceCase := ⟨"ld a, b", initial, expected, 1⟩
    let k' : ConformanceCase := ⟨"ld a, b", initial, { expected with f := 0x1F }, 2⟩
    (k.cycles < 2 ^ 30 ∧ k.verdict = .passed) ∧
      k'.cycles < 2 ^ 30 ∧ k'.verdict = .differs [.register "f" 0x1F 0x10, .clocks 8 4] := by
  intro initial expected k k'
  have hcycles : k.cycles < 2 ^ 30 := by decide
  have hcycles' : k'.cycles < 2 ^ 30 := by decide
  obtain ⟨-, -, hpassed, -⟩ := verdict_is_exact k hcycles
  obtain ⟨-, -, -, -, hdiffers⟩ := verdict_is_exact k' hcycles'
  have hdescribes : initial.Describes initial.machine := initial.describes_machine
  have hopcode : initial.machine.memory.read8 0xC000 = 0x78 :=
    (hdescribes.read8 0xC000).trans (by decide)
  have hother : initial.machine.memory.read8 0x1234 = 0x00 :=
    (hdescribes.read8 0x1234).trans (by decide)
  let c : Cpu := { regs := initial.registers, eiPending := true }
  let c' : Cpu := { regs := expected.registers, clocks := 4 }
  have hcpu : initial.machine.cpu = c := rfl
  have hinitial : k.initial = initial := rfl
  have hinitial' : k'.initial = initial := rfl
  simp only [hinitial, hinitial', hcpu] at hpassed hdiffers
  generalize initial.machine.memory = memory at *
  have hsettled : c.settle ⟨4, .none⟩ { c.regs with a := c.regs.b, pc := c.regs.pc + 1 } = c' := by
    decide +kernel
  have hstep : c.step memory = (.ok 4, c', memory) := by
    rw [← hsettled]
    exact Cpu.step_of_read8_eq_copy rfl rfl hopcode
  have hflags : c'.regs.f = 0x10 := by decide
  have hlatch : c'.regs.ime = true ↔ expected.ime ≠ 0 := by decide
  have hpending : c'.eiPending = true ↔ (0 : UInt8) ≠ 0 := by decide
  let before : List ConformanceCase.Check := [.pc, .sp, .a, .b, .c, .d, .e]
  let after : List ConformanceCase.Check :=
    [.h, .l, .ime, .ei 0, .ram 0xC000 0x78, .ram 0x1234 0x00]
  have hchecks : k.checks = before ++ .f :: (after ++ [.clocks]) := rfl
  have hchecks' : k'.checks = before ++ .f :: (after ++ [.clocks]) := rfl
  have hheld : ∀ j ∈ [k, k'], ∀ check ∈ before ++ after, check.Holds j 4 ⟨c', memory⟩ := by
    simp only [List.forall_mem_cons, before, after, List.cons_append, List.nil_append]
    exact
      ⟨⟨rfl, rfl, rfl, rfl, rfl, rfl, rfl, rfl, rfl, hlatch, hpending, hopcode, hother, by simp⟩,
        ⟨rfl, rfl, rfl, rfl, rfl, rfl, rfl, rfl, rfl, hlatch, hpending, hopcode, hother, by simp⟩,
        by simp⟩
  refine ⟨⟨hcycles, hpassed.mpr ⟨4, c', memory, hstep, ?_⟩⟩, hcycles',
    (hdiffers _).mpr ⟨4, c', memory, hstep, List.cons_ne_nil _ _, ?_⟩⟩
  · have hflag : ConformanceCase.Check.f.Holds k 4 ⟨c', memory⟩ := hflags
    have hclocks : ConformanceCase.Check.clocks.Holds k 4 ⟨c', memory⟩ := rfl
    intro check hcheck
    grind
  · have hflag : ¬ ConformanceCase.Check.f.Holds k' 4 ⟨c', memory⟩ := by
      change ¬ c'.regs.f = 0x1F
      rw [hflags]; decide
    have hclocks : ¬ ConformanceCase.Check.clocks.Holds k' 4 ⟨c', memory⟩ := by
      change ¬ 4 = 4 * 2
      decide
    have hnone : ∀ l ⊆ before ++ after,
        (l.filter fun check => ¬ check.Holds k' 4 ⟨c', memory⟩) = [] := by
      intro l hl
      refine List.filter_eq_nil_iff.mpr fun check hcheck => ?_
      simpa using hheld k' (by simp) check (hl hcheck)
    rw [hchecks', List.filter_append, hnone before (List.subset_append_left _ _),
      List.filter_cons_of_pos (by simpa using hflag), List.filter_append,
      hnone after (List.subset_append_right _ _), List.filter_cons_of_pos (by simpa using hclocks)]
    simp [ConformanceCase.Check.difference, hflags, k']

end Sm83
