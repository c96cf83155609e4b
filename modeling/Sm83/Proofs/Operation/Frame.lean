import Sm83.Proofs.Bus.Invariant
import Sm83.Proofs.Memory.PlainRam

/-!
# What operations leave alone

Most operations change a byte register or a byte of memory and nothing else. This file lists the
operations that change the flags, the stack pointer, the program counter or the interrupt enable,
and the addresses at which an operation stores. Whatever is not listed for an operation is
afterwards as it was. For the registers this is one case analysis over the operations
(`Operation.frame_effect`); for memory it follows from the accesses that a journal writes down,
since a byte that is not written to does not change in flat mode.

## Main definitions

* `Operation.setsFlags`, `Operation.setsSP`, `Operation.setsPC`, `Operation.setsIme` — the
  operations that change something else than a byte.
* `Operation.stores` — the addresses at which an operation stores.
* `Operation.Frame` — what an operation leaves alone in the registers.

## Main results

* `Operation.frame_effect` — the frame of an operation.
* `Operation.effect_eq_self_of_not_meets` — a condition that does not hold.
* `Operation.stores_eq_filterMap_accesses` — an operation stores where its accesses write.
* `Operation.read8_effect_of_notMem_stores` — the bytes that an operation leaves alone in flat mode.
* `decoded_instruction_frame` — all of this for what was decoded.
-/

namespace Sm83

/-! ### Registers -/

theorem Core.regs_writeOperand {β : Type u} [Bus β] (s : Core β) (r : Reg8) (v : UInt8) :
    (s.writeOperand r v).regs = s.regs.set r v := by
  cases r <;> rfl

theorem Core.regs_ret {β : Type u} [Bus β] (s : Core β) :
    s.ret.regs = { s.regs with sp := s.regs.sp + 1 + 1, pc := s.pop.1 } := rfl

namespace Operation

/-- The operations that change flags: byte arithmetic, steps of a byte, additions to `HL` or of a
displacement to `SP`, the operations on the accumulator and the flags alone, rotates and shifts,
tests of a bit, and the load of `AF` from the stack. -/
def setsFlags : Operation → Bool
  | alu _ _ | aluImm _ _ | inc _ | dec _ | addHL _ | addSP _ | loadHLSP _ | daa | cpl | scf | ccf
  | rotateA _ | shift _ _ | bit _ _ | pop .af => true
  | _ => false

/-- The operations that change the stack pointer: those that use the stack, and those that have the
stack pointer as their destination. -/
def setsSP : Operation → Bool
  | push _ | pop _ | call _ _ | rst _ | ret _ | reti | incPair .sp | decPair .sp | addSP _
  | loadPair .sp _ | loadSPHL => true
  | _ => false

/-- The operations that change the program counter: jumps, calls and returns. -/
def setsPC : Operation → Bool
  | jp _ _ | jpHL | jr _ _ | call _ _ | ret _ | reti | rst _ => true
  | _ => false

/-- The operations that change the interrupt enable. -/
def setsIme : Operation → Bool
  | di | reti => true
  | _ => false

/-- What an operation leaves alone in the registers, the byte registers apart. -/
structure Frame (op : Operation) (before after : RegisterFile) : Prop where
  flags : op.setsFlags = false → after.flags = before.flags
  sp : op.setsSP = false → after.sp = before.sp
  pc : op.setsPC = false → after.pc = before.pc
  ime : op.setsIme = false → after.ime = before.ime

namespace Frame

variable {op : Operation} {before after : RegisterFile}

/-- Each of the four is what the operation changes, or is what it was. -/
theorem of_or (hflags : op.setsFlags = true ∨ after.flags = before.flags)
    (hsp : op.setsSP = true ∨ after.sp = before.sp) (hpc : op.setsPC = true ∨ after.pc = before.pc)
    (hime : op.setsIme = true ∨ after.ime = before.ime) : op.Frame before after where
  flags h := hflags.resolve_left (Bool.eq_false_iff.mp h)
  sp h := hsp.resolve_left (Bool.eq_false_iff.mp h)
  pc h := hpc.resolve_left (Bool.eq_false_iff.mp h)
  ime h := hime.resolve_left (Bool.eq_false_iff.mp h)

/-- Changes of byte registers alone stay in the frame of every operation. -/
theorem of_eq (hflags : after.flags = before.flags) (hsp : after.sp = before.sp)
    (hpc : after.pc = before.pc) (hime : after.ime = before.ime) : op.Frame before after :=
  .of_or (.inr hflags) (.inr hsp) (.inr hpc) (.inr hime)

theorem set (op : Operation) (r : RegisterFile) (reg : Reg8) (v : UInt8) :
    op.Frame r (r.set reg v) := by
  cases reg <;> exact .of_eq rfl rfl rfl rfl

end Frame

variable {β : Type u} [Bus β]

/-- **The frame of an operation.** -/
theorem frame_effect (op : Operation) (s : Core β) : op.Frame s.regs (op.effect s).regs := by
  cases op with
  | load _ _ | loadImm _ _ | res _ _ | set _ _ =>
    simp only [effect, Core.regs_writeOperand, Core.regs_readOperand]
    exact .set ..
  | storeAt p | loadAt p => cases p <;> exact .of_eq rfl rfl rfl rfl
  | inc r | dec r | shift _ r | alu _ r | bit _ r =>
    cases r <;> exact .of_or (.inl rfl) (.inr rfl) (.inr rfl) (.inr rfl)
  | aluImm _ _ | addHL _ | loadHLSP _ | rotateA _ | daa | cpl | scf | ccf =>
    exact .of_or (.inl rfl) (.inr rfl) (.inr rfl) (.inr rfl)
  | loadPair p _ | incPair p | decPair p =>
    cases p with
    | sp => exact .of_or (.inr rfl) (.inl rfl) (.inr rfl) (.inr rfl)
    | _ => exact .of_eq rfl rfl rfl rfl
  | push _ | loadSPHL => exact .of_or (.inr rfl) (.inl rfl) (.inr rfl) (.inr rfl)
  | pop p =>
    cases p with
    | af => exact .of_or (.inl rfl) (.inl rfl) (.inr rfl) (.inr rfl)
    | _ => exact .of_or (.inr rfl) (.inl rfl) (.inr rfl) (.inr rfl)
  | addSP _ => exact .of_or (.inl rfl) (.inl rfl) (.inr rfl) (.inr rfl)
  | jpHL => exact .of_or (.inr rfl) (.inr rfl) (.inl rfl) (.inr rfl)
  | jp cond _ | jr cond _ =>
    simp only [effect]
    split <;> exact .of_or (.inr rfl) (.inr rfl) (.inl rfl) (.inr rfl)
  | call cond _ =>
    simp only [effect]
    split <;> exact .of_or (.inr rfl) (.inl rfl) (.inl rfl) (.inr rfl)
  | ret cond =>
    simp only [effect, apply_ite Core.regs, Core.regs_ret]
    split <;> exact .of_or (.inr rfl) (.inl rfl) (.inl rfl) (.inr rfl)
  | rst _ => exact .of_or (.inr rfl) (.inl rfl) (.inl rfl) (.inr rfl)
  | reti =>
    simp only [effect, Core.modifyRegs, Core.regs_ret]
    exact .of_or (.inr rfl) (.inl rfl) (.inl rfl) (.inl rfl)
  | di => exact .of_or (.inr rfl) (.inr rfl) (.inr rfl) (.inl rfl)
  | _ => exact .of_eq rfl rfl rfl rfl

/-- A jump, call or return whose condition does not hold does nothing at all. -/
theorem effect_eq_self_of_not_meets {op : Operation} {cc : Cond}
    (hcc : .cond cc ∈ op.toInstruction.operands) {s : Core β} (h : s.regs.flags.meets cc = false) :
    op.effect s = s := by
  have hallow : s.regs.flags.allow (some cc) = false := h
  cases op with
  | jp cond _ | jr cond _ | call cond _ | ret cond =>
    obtain rfl : cond = some cc := by
      cases cond <;> simp_all [toInstruction, conditional, Instruction.operands]
    simp [effect, hallow]
  | _ => simp [toInstruction, Instruction.operands] at hcc

end Operation

/-! ### Memory -/

/-- The address of an access that is a write. -/
def Access.written? : Access → Option UInt16
  | read _ => none
  | write addr => some addr

namespace Operation

/-- The addresses at which an operation stores, with the registers before it. -/
def stores (op : Operation) (r : RegisterFile) : List UInt16 :=
  match op with
  | load .atHL _ | loadImm .atHL _ | inc .atHL | dec .atHL | shift _ .atHL | res _ .atHL
  | set _ .atHL => [r.hl]
  | storeAt .hlInc | storeAt .hlDec => [r.hl]
  | storeAt .bc => [r.bc]
  | storeAt .de => [r.de]
  | storeAbs addr => [addr]
  | storeSP addr => [addr, addr + 1]
  | storeHigh n => [highAddress n]
  | storeHighC => [highAddress r.c]
  | push _ | rst _ => [r.sp - 1, r.sp - 2]
  | call cond _ => if r.flags.allow cond then [r.sp - 1, r.sp - 2] else []
  | _ => []

theorem filterMap_written?_pushes (r : RegisterFile) :
    r.pushes.filterMap Access.written? = [r.sp - 1, r.sp - 2] := by
  have hlow : r.sp - 1 - 1 = r.sp - 2 := by grind
  exact congrArg (fun low => [r.sp - 1, low]) hlow

/-- An operation stores at the addresses of its writes, in their order. -/
theorem stores_eq_filterMap_accesses (op : Operation) (r : RegisterFile) :
    op.stores r = (op.accesses r).filterMap Access.written? := by
  cases op with
  | load dst src => cases dst <;> cases src <;> rfl
  | loadImm x _ | alu _ x | inc x | dec x | shift _ x | bit _ x | res _ x | set _ x =>
    cases x <;> rfl
  | storeAt p => cases p <;> rfl
  | push _ | rst _ => exact (filterMap_written?_pushes r).symm
  | call cond _ =>
    change (if r.flags.allow cond then [r.sp - 1, r.sp - 2] else []) = _
    rw [accesses, apply_ite (List.filterMap _), filterMap_written?_pushes]
    rfl
  | ret cond =>
    change [] = _
    rw [accesses, apply_ite (List.filterMap _)]
    exact (ite_self _).symm
  | _ => rfl

end Operation

/-- In flat mode a byte changes only when it is written to. -/
theorem Memory.flat_frame (a : UInt16) :
    Bus.Frame {a} fun m : Memory => if m.isFlat then some (m.read8 a) else none where
  read _ _ := rfl
  write {b} hb v m := by
    rw [write_eq, isFlat_write8]
    split_ifs with hmode
    · rw [read8_write8_of_isFlat hmode, if_neg (Ne.symm hb)]
    · rfl

/-- In flat mode an operation leaves alone every byte at which it does not store. -/
theorem Operation.read8_effect_of_notMem_stores {op : Operation} {s : Core Memory}
    (hmode : s.bus.isFlat = true) {a : UInt16} (ha : a ∉ op.stores s.regs) :
    (op.effect s).bus.read8 a = s.bus.read8 a := by
  have hwrites : ∀ b ∈ ({a} : Set UInt16), Access.write b ∉ op.accesses s.regs := by
    rintro b rfl hmem
    refine ha ?_
    rw [stores_eq_filterMap_accesses]
    exact List.mem_filterMap.mpr ⟨_, hmem, rfl⟩
  have hkept := (Memory.flat_frame a).effect hwrites
  have hmode' : (op.effect s).bus.isFlat = true :=
    (Memory.isFlat_frame.effect fun _ hmem => hmem.elim).trans hmode
  rw [if_pos hmode', if_pos hmode] at hkept
  exact Option.some.inj hkept

/-! ### What was decoded -/

/-- **The frame of every instruction.** What was decoded and is no data byte is executed on any
registers and any memory. It leaves the flags alone unless it is one of the operations that compute
them, the stack pointer, the program counter and the interrupt enable unless it is one of the few
that move them, and everything if its condition does not hold. Loads and stores through `HL+` and
`HL-` access the old address in `HL` and move it by one. In flat mode the bytes change only at the
addresses at which the operation stores. -/
theorem decoded_instruction_frame {β : Type u} [ByteSource β] (pc : UInt16) (src : β)
    (s : Core Memory) (hvalid : (fetch pc src).1.instruction.isInvalid = false) :
    let i := (fetch pc src).1.instruction
    let op := (fetch pc src).1.operation
    let hl := s.regs.hl
    ∃ o s', i.execute s = (.ok o, s') ∧
      (op.setsFlags = false → s'.regs.flags = s.regs.flags) ∧
      (op.setsSP = false → s'.regs.sp = s.regs.sp) ∧
      (op.setsPC = false → s'.regs.pc = s.regs.pc) ∧
      (op.setsIme = false → s'.regs.ime = s.regs.ime) ∧
      (∀ cc, .cond cc ∈ i.operands → s.regs.flags.meets cc = false → s' = s) ∧
      (op = .storeAt .hlInc →
        s'.regs.hl = hl + 1 ∧ s'.bus = s.bus.write8 hl s.regs.a) ∧
      (op = .storeAt .hlDec →
        s'.regs.hl = hl - 1 ∧ s'.bus = s.bus.write8 hl s.regs.a) ∧
      (op = .loadAt .hlInc →
        s'.regs.hl = hl + 1 ∧ s'.regs.a = s.bus.read8 hl ∧ s'.bus = s.bus) ∧
      (op = .loadAt .hlDec →
        s'.regs.hl = hl - 1 ∧ s'.regs.a = s.bus.read8 hl ∧ s'.bus = s.bus) ∧
      (s.bus.isFlat = true → ∀ a, a ∉ op.stores s.regs → s'.bus.read8 a = s.bus.read8 a) := by
  intro i op hl
  have hframe := op.frame_effect s
  refine ⟨_, op.effect s, Operation.execute_toInstruction_of_isInvalid_eq_false hvalid s,
    hframe.flags, hframe.sp, hframe.pc, hframe.ime,
    fun cc hcc hnot => Operation.effect_eq_self_of_not_meets hcc hnot, fun h => ?_, fun h => ?_,
    fun h => ?_, fun h => ?_,
    fun hmode a ha => Operation.read8_effect_of_notMem_stores hmode ha⟩
  · rw [h]
    exact ⟨word_highByte_lowByte _, rfl⟩
  · rw [h]
    exact ⟨word_highByte_lowByte _, rfl⟩
  · rw [h]
    exact ⟨word_highByte_lowByte _, rfl, rfl⟩
  · rw [h]
    exact ⟨word_highByte_lowByte _, rfl, rfl⟩

/-- `LD (HL-),A` at the lowest address, in flat mode: `HL` moves to the highest address, and the
store is at the lowest one. -/
theorem store_moves_HL_below_zero :
    let f := (fetch 0 (bytesAt [0x32] 0)).1
    let s : Core Memory := ⟨{ a := 0x42, flags := { c := true }, sp := 0xFFFE }, .emptyFlat⟩
    f.instruction.isInvalid = false ∧
      ∃ o s', f.instruction.execute s = (.ok o, s') ∧ s'.regs.flags = s.regs.flags ∧
        s'.regs.sp = 0xFFFE ∧ s'.regs.hl = 0xFFFF ∧
        ∀ a, a ≠ 0 → s'.bus.read8 a = s.bus.read8 a := by
  intro f s
  have hvalid : f.instruction.isInvalid = false := rfl
  have hop : f.operation = .storeAt .hlDec := rfl
  obtain ⟨o, s', hexecute, hflags, hsp, -, -, -, -, hstore, -, -, hbytes⟩ :=
    decoded_instruction_frame 0 (bytesAt [0x32] 0) s hvalid
  have hhl : s.regs.hl - 1 = 0xFFFF := by decide
  refine ⟨hvalid, o, s', hexecute, hflags (by rw [hop]; rfl), hsp (by rw [hop]; rfl),
    (hstore hop).1.trans hhl, fun a ha => hbytes rfl a ?_⟩
  have hstores : (Operation.storeAt .hlDec).stores s.regs = [0] := by decide
  rw [hop, hstores]
  exact mt List.mem_singleton.mp ha

end Sm83
