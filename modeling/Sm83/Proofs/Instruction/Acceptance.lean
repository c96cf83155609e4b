import Sm83.Memory.Basic
import Sm83.Proofs.Operation.Decoding

/-!
# Which instructions are executed

An instruction can be written down with any operands behind any mnemonic. Either its operands fit
and it is executed, or it is a data byte, or its operands do not fit; in the last two cases nothing
happens but that the failure is reported. Which of these it is depends on the instruction alone.

The instructions that are executed are nearly those that can be decoded. The opcode tables have no
place for a load of the cell at `HL` into itself, while the execution of loads takes it as it takes
any other two byte operands. It is the only such instruction, if bit numbers and restart vectors
are in their ranges.

## Main definitions

* `Instruction.canonical` — the instruction with its bit number below 8.
* `Instruction.HasEncoding` — some bytes are decoded to the instruction.

## Main results

* `Instruction.toInstruction_of_operation?` — an instruction is the assembly form of the operation
  it asks for, up to bit numbers.
* `Instruction.execute_cases` — the three kinds of executions.
* `failed_execution_changes_nothing` — what a failing execution leaves and reports.
* `executed_iff_has_encoding` — the instructions that are executed.
-/

namespace Sm83

/-! ### The operation an instruction asks for -/

/-- An operand with a bit number counted modulo 8. -/
def Operand.canonical : Operand → Operand
  | bit b => bit (b % 8)
  | o => o

theorem Operand.canonical_of_bit_lt {o : Operand} (h : ∀ b, o = .bit b → b < 8) :
    o.canonical = o := by
  cases o with
  | bit b => exact congrArg bit (UInt8.mod_eq_of_lt (h b rfl))
  | _ => rfl

namespace Instruction

/-- An instruction with its bit number counted modulo 8. -/
def canonical (i : Instruction) : Instruction :=
  ⟨i.mnemonic, i.first.map Operand.canonical, i.second.map Operand.canonical⟩

theorem canonical_of_bit_lt {i : Instruction} (h : ∀ b, Operand.bit b ∈ i.operands → b < 8) :
    i.canonical = i := by
  have hslot {o : Option Operand} (ho : ∀ b, o = some (.bit b) → b < 8) :
      o.map Operand.canonical = o := by
    cases o with
    | none => rfl
    | some o =>
      exact congrArg some (Operand.canonical_of_bit_lt fun b hb => ho b (congrArg some hb))
  have hfirst := hslot (o := i.first) fun b hb => h b (by simp [operands, hb])
  have hsecond := hslot (o := i.second) fun b hb => h b (by simp [operands, hb])
  rw [canonical, hfirst, hsecond]

section Forms

variable {m : Mnemonic} {x y : Option Operand} {op op' : Operation}

theorem toInstruction_of_plain? (hop : op.toInstruction = ⟨m, none, none⟩)
    (h : plain? op x y = some op') : op'.toInstruction = canonical ⟨m, x, y⟩ := by
  unfold plain? at h
  split at h <;> cases h
  exact hop

theorem toInstruction_of_load? (h : load? x y = some op) :
    op.toInstruction = canonical ⟨.ld, x, y⟩ := by
  -- the forms of loads overlap, so the operands are told apart by hand
  cases x with
  | none => cases h
  | some x =>
    cases y with
    | none =>
      cases x with
      | reg8 dst => cases dst <;> cases h
      | pair p => cases p <;> cases h
      | _ => cases h
    | some y =>
      cases x with
      | reg8 dst => cases y <;> cases dst <;> cases h <;> rfl
      | pair p =>
        cases y with
        | pair q => cases p <;> cases q <;> cases h; rfl
        | _ => cases p <;> cases h <;> rfl
      | pointer p | address n =>
        cases y with
        | reg8 src => cases src <;> cases h; rfl
        | pair p => cases p <;> cases h <;> rfl
        | _ => cases h
      | _ => cases h

theorem toInstruction_of_loadHigh? (h : loadHigh? x y = some op) :
    op.toInstruction = canonical ⟨.ldh, x, y⟩ := by
  cases x with
  | none => cases h
  | some x =>
    cases x with
    | reg8 dst =>
      cases dst with
      | a =>
        cases y with
        | none => cases h
        | some y => cases y <;> cases h <;> rfl
      | _ => cases h
    | high n | highC =>
      cases y with
      | none => cases h
      | some y =>
        cases y with
        | reg8 src => cases src <;> cases h; rfl
        | _ => cases h
    | _ => cases h

theorem toInstruction_of_alu? {f : AluOp} (h : alu? f x y = some op) :
    op.toInstruction = canonical ⟨f.mnemonic, x, y⟩ := by
  unfold alu? at h
  split at h <;> cases h <;> rfl

theorem toInstruction_of_add? (h : add? x y = some op) :
    op.toInstruction = canonical ⟨.add, x, y⟩ := by
  unfold add? at h
  split at h
  · cases h
    rfl
  · cases h
    rfl
  · exact toInstruction_of_alu? h

theorem toInstruction_of_step? {byte : Reg8 → Operation} {pair : Pair → Operation}
    (hbyte : ∀ r, (byte r).toInstruction = ⟨m, some (.reg8 r), none⟩)
    (hpair : ∀ p, (pair p).toInstruction = ⟨m, some (.pair p), none⟩)
    (h : step? byte pair x y = some op) : op.toInstruction = canonical ⟨m, x, y⟩ := by
  unfold step? at h
  split at h <;> cases h
  · exact hbyte _
  · exact hpair _

theorem toInstruction_of_shift? {f : Shift} (h : shift? f x y = some op) :
    op.toInstruction = canonical ⟨f.mnemonic, x, y⟩ := by
  unfold shift? at h
  split at h <;> cases h
  rfl

theorem toInstruction_of_bit? {f : Fin 8 → Reg8 → Operation}
    (hf : ∀ i r, (f i r).toInstruction = ⟨m, some (.bit (UInt8.ofNat i)), some (.reg8 r)⟩)
    (h : bit? f x y = some op) : op.toInstruction = canonical ⟨m, x, y⟩ := by
  unfold bit? at h
  split at h <;> cases h
  rename_i b r
  have hb : UInt8.ofNat (threeBits b.toNat) = b % 8 := by
    apply UInt8.toNat_inj.mp
    simp only [threeBits, UInt8.toNat_ofNat', UInt8.toNat_mod, UInt8.reduceToNat]
    omega
  rw [hf, hb]
  rfl

theorem toInstruction_of_stack? {f : StackPair → Operation}
    (hf : ∀ p, (f p).toInstruction = ⟨m, some (.stackPair p), none⟩)
    (h : stack? f x y = some op) : op.toInstruction = canonical ⟨m, x, y⟩ := by
  unfold stack? at h
  split at h <;> cases h
  exact hf _

theorem toInstruction_of_jump? (h : jump? x y = some op) :
    op.toInstruction = canonical ⟨.jp, x, y⟩ := by
  cases x with
  | none => cases h
  | some x =>
    cases x with
    | imm16 n => cases y <;> cases h; rfl
    | pair p => cases p <;> cases y <;> cases h; rfl
    | cond cc =>
      cases y with
      | none => cases h
      | some y => cases y <;> cases h; rfl
    | _ => cases h

theorem toInstruction_of_jumpRelative? (h : jumpRelative? x y = some op) :
    op.toInstruction = canonical ⟨.jr, x, y⟩ := by
  unfold jumpRelative? at h
  split at h <;> cases h <;> rfl

theorem toInstruction_of_call? (h : call? x y = some op) :
    op.toInstruction = canonical ⟨.call, x, y⟩ := by
  unfold call? at h
  split at h <;> cases h <;> rfl

theorem toInstruction_of_ret? (h : ret? x y = some op) :
    op.toInstruction = canonical ⟨.ret, x, y⟩ := by
  unfold ret? at h
  split at h <;> cases h <;> rfl

theorem toInstruction_of_restart? (h : restart? x y = some op) :
    op.toInstruction = canonical ⟨.rst, x, y⟩ := by
  unfold restart? at h
  split at h <;> cases h
  rfl

theorem toInstruction_of_data? (h : data? x y = some op) :
    op.toInstruction = canonical ⟨.invalid, x, y⟩ := by
  unfold data? at h
  split at h <;> cases h
  rfl

end Forms

/-- An instruction is the assembly form of the operation it asks for, up to bit numbers. -/
theorem toInstruction_of_operation? {i : Instruction} {op : Operation}
    (h : i.operation? = some op) : op.toInstruction = i.canonical := by
  obtain ⟨m, x, y⟩ := i
  cases m with
  | ccf | cpl | daa | di | ei | halt | nop | reti | rla | rlca | rra | rrca | scf | stop =>
    exact toInstruction_of_plain? rfl h
  | adc | and | cp | or | sbc | sub | xor => exact toInstruction_of_alu? h
  | rl | rlc | rr | rrc | sla | sra | srl | swap => exact toInstruction_of_shift? h
  | bit | res | set => exact toInstruction_of_bit? (fun _ _ => rfl) h
  | dec | inc => exact toInstruction_of_step? (fun _ => rfl) (fun _ => rfl) h
  | pop | push => exact toInstruction_of_stack? (fun _ => rfl) h
  | add => exact toInstruction_of_add? h
  | call => exact toInstruction_of_call? h
  | jp => exact toInstruction_of_jump? h
  | jr => exact toInstruction_of_jumpRelative? h
  | ld => exact toInstruction_of_load? h
  | ldh => exact toInstruction_of_loadHigh? h
  | ret => exact toInstruction_of_ret? h
  | rst => exact toInstruction_of_restart? h
  | invalid => exact toInstruction_of_data? h

/-- Only a data byte asks for an opcode byte without a meaning. -/
theorem eq_of_operation?_eq_invalid {i : Instruction} {b : UInt8}
    (h : i.operation? = some (.invalid b)) : i = ⟨.invalid, some (.unknown b), none⟩ := by
  have hcanonical := (toInstruction_of_operation? h).symm
  obtain ⟨m, x, y⟩ := i
  simp only [Operation.toInstruction, canonical, mk.injEq, Option.map_eq_some_iff,
    Option.map_eq_none_iff] at hcanonical
  obtain ⟨rfl, ⟨o, rfl, ho⟩, rfl⟩ := hcanonical
  cases o <;> cases ho
  rfl

/-! ### Executions -/

section Execute

variable {β : Type u} [Bus β]

/-- **The three kinds of executions.** The operands of an instruction do not fit, or it is a data
byte, or it is executed. In the first two cases nothing else happens. -/
theorem execute_cases (i : Instruction) (s : Core β) :
    (i.operation? = none ∧ i.execute s = (.error (.operandMismatch i.mnemonic), s)) ∨
    (∃ b, i = ⟨.invalid, some (.unknown b), none⟩ ∧
      i.execute s = (.error (.invalidOpcode b (s.regs.pc - 1)), s)) ∨
    (∃ op, i.operation? = some op ∧ (∀ b, op ≠ .invalid b) ∧
      i.execute s = (.ok ⟨op.clocks s.regs.flags, op.control⟩, op.effect s)) := by
  cases hop : i.operation? with
  | none => exact .inl ⟨rfl, by simp only [execute, hop]⟩
  | some op =>
    by_cases hdata : ∃ b, op = .invalid b
    · obtain ⟨b, rfl⟩ := hdata
      obtain rfl := eq_of_operation?_eq_invalid hop
      exact .inr (.inl ⟨b, rfl, rfl⟩)
    · rw [not_exists] at hdata
      refine .inr (.inr ⟨op, rfl, hdata, ?_⟩)
      simp only [execute, hop]
      exact Operation.execute_eq_of_ne_invalid hdata s

end Execute

end Instruction

/-- **A failing execution changes nothing.** Let an instruction with any mnemonic and any operands
be executed on any registers and any bus. If this fails, registers and bus are as before; not even a
byte was read. The reason is an opcode without a meaning exactly if the instruction is a data byte,
and then the error names the byte and the address in front of the program counter. The reason is the
operands exactly if no operation is asked for, and then the error names the mnemonic. -/
theorem failed_execution_changes_nothing {β : Type u} [Bus β] (i : Instruction) (s : Core β) :
    (∀ e, (i.execute s).1 = .error e → (i.execute s).2 = s) ∧
    (∀ b pc, (i.execute s).1 = .error (.invalidOpcode b pc) ↔
      i = ⟨.invalid, some (.unknown b), none⟩ ∧ pc = s.regs.pc - 1) ∧
    (∀ m, (i.execute s).1 = .error (.operandMismatch m) ↔
      i.operation? = none ∧ m = i.mnemonic) := by
  rcases i.execute_cases s with ⟨hnone, hexecute⟩ | ⟨b, rfl, hexecute⟩ | ⟨op, hop, hdata, hexecute⟩
  · rw [hexecute, hnone]
    refine ⟨fun _ _ => rfl, fun b pc => ?_, fun m => ?_⟩
    · refine iff_of_false (by simp) ?_
      rintro ⟨rfl, -⟩
      cases hnone
    · simp [eq_comm]
  · rw [hexecute]
    refine ⟨fun _ _ => rfl, fun b' pc => ?_, fun m => ?_⟩
    · simp [eq_comm]
    · exact iff_of_false (by simp) fun h => by cases h.1
  · rw [hexecute, hop]
    refine ⟨nofun, fun b pc => ?_, fun m => ?_⟩
    · refine iff_of_false (by simp) ?_
      rintro ⟨rfl, -⟩
      exact hdata b (Option.some.inj hop).symm
    · simp

/-- A `SET` of bit 7 of a register pair is refused, at power-on as anywhere. -/
theorem set_of_pair_changes_nothing :
    let i : Instruction := ⟨.set, some (.bit 7), some (.pair .hl)⟩
    let s : Core Memory := ⟨.postBoot, {}⟩
    (i.execute s).1 = .error (.operandMismatch .set) ∧ (i.execute s).2 = s := by
  intro i s
  have hrefused : (i.execute s).1 = .error (.operandMismatch .set) := rfl
  exact ⟨hrefused, (failed_execution_changes_nothing i s).1 _ hrefused⟩

/-! ### Instructions with an encoding -/

namespace Instruction

/-- Some bytes are decoded to the instruction. -/
def HasEncoding (i : Instruction) : Prop :=
  ∃ bytes pc, (decodeSlice bytes pc).instruction = i

/-- The instructions that are decoded are the assembly forms of the operations that can be
found. -/
theorem hasEncoding_iff {i : Instruction} :
    i.HasEncoding ↔ ∃ op : Operation, op.Found ∧ op.toInstruction = i := by
  constructor
  · rintro ⟨bytes, pc, rfl⟩
    exact ⟨_, Operation.found_operation_fetch pc (bytesAt bytes pc), rfl⟩
  · rintro ⟨op, hop, rfl⟩
    obtain ⟨bytes, hbytes⟩ := hop.exists_decodeSlice 0
    exact ⟨bytes, 0, congrArg Operation.toInstruction hbytes⟩

/-- An instruction that asks for an operation has an encoding, with the one exception. -/
theorem hasEncoding_of_operation? {i : Instruction} {op : Operation}
    (hvalid : i.isInvalid = false) (hbit : ∀ b, Operand.bit b ∈ i.operands → b < 8)
    (hvector : ∀ v, Operand.vector v ∈ i.operands → v ∈ restartVectors)
    (h : i.operation? = some op) (hload : op ≠ .load .atHL .atHL) : i.HasEncoding := by
  obtain rfl : op.toInstruction = i :=
    (toInstruction_of_operation? h).trans (canonical_of_bit_lt hbit)
  refine hasEncoding_iff.mpr ⟨op, .inl ⟨?_, hload⟩, rfl⟩
  cases op with
  | rst v => exact hvector v (by simp [Operation.toInstruction, operands])
  | invalid b => cases hvalid
  | _ => trivial

end Instruction

theorem mem_restartVectors_iff {v : UInt8} : v ∈ restartVectors ↔ v % 8 = 0 ∧ v < 0x40 := by
  have hall : ∀ i : Fin 256, UInt8.ofNat i ∈ restartVectors ↔
      UInt8.ofNat i % 8 = 0 ∧ UInt8.ofNat i < 0x40 := by
    decide +kernel
  simpa using hall v.toFin

/-- **The instructions that are executed** are those that are decoded from some bytes, and the load
of the cell at `HL` into itself. This holds of every instruction that is no data byte and whose bit
numbers and restart vectors are in their ranges, on any registers and any bus. All others of them
are refused because of their operands, and nothing is changed. -/
theorem executed_iff_has_encoding {β : Type u} [Bus β] {i : Instruction}
    (hvalid : i.isInvalid = false) (hbit : ∀ b, Operand.bit b ∈ i.operands → b < 8)
    (hvector : ∀ v, Operand.vector v ∈ i.operands → v % 8 = 0 ∧ v < 0x40) (s : Core β) :
    ((∃ o, (i.execute s).1 = .ok o) ↔
      i.HasEncoding ∨ i = ⟨.ld, some (.reg8 .atHL), some (.reg8 .atHL)⟩) ∧
    (i.execute s = (.error (.operandMismatch i.mnemonic), s) ↔
      ¬ (i.HasEncoding ∨ i = ⟨.ld, some (.reg8 .atHL), some (.reg8 .atHL)⟩)) := by
  have hvector' (v : UInt8) (hv : Operand.vector v ∈ i.operands) : v ∈ restartVectors :=
    mem_restartVectors_iff.mpr (hvector v hv)
  rcases i.execute_cases s with ⟨hnone, hexecute⟩ | ⟨b, rfl, -⟩ | ⟨op, hop, -, hexecute⟩
  · have hneither : ¬ (i.HasEncoding ∨ i = ⟨.ld, some (.reg8 .atHL), some (.reg8 .atHL)⟩) := by
      rintro (hencoding | rfl)
      · obtain ⟨op, -, rfl⟩ := Instruction.hasEncoding_iff.mp hencoding
        rw [Instruction.operation?_toInstruction] at hnone
        cases hnone
      · cases hnone
    rw [hexecute]
    exact ⟨iff_of_false (by simp) hneither, iff_of_true rfl hneither⟩
  · cases hvalid
  · have heither : i.HasEncoding ∨ i = ⟨.ld, some (.reg8 .atHL), some (.reg8 .atHL)⟩ := by
      by_cases hload : op = .load .atHL .atHL
      · have hcanonical := Instruction.toInstruction_of_operation? hop
        rw [Instruction.canonical_of_bit_lt hbit, hload] at hcanonical
        exact .inr hcanonical.symm
      · exact .inl (Instruction.hasEncoding_of_operation? hvalid hbit hvector' hop hload)
    rw [hexecute]
    exact ⟨iff_of_true ⟨_, rfl⟩ heither, iff_of_false (by simp) (not_not_intro heither)⟩

/-- A load of `B` from the last page has no encoding, since only `A` is loaded from there, and is
refused. -/
theorem load_of_B_from_last_page_is_refused :
    let i : Instruction := ⟨.ldh, some (.reg8 .b), some (.high 0x80)⟩
    let s : Core Memory := ⟨.postBoot, {}⟩
    (i.isInvalid = false ∧ (∀ b, Operand.bit b ∈ i.operands → b < 8) ∧
      ∀ v, Operand.vector v ∈ i.operands → v % 8 = 0 ∧ v < 0x40) ∧
    ¬ i.HasEncoding ∧ i.execute s = (.error (.operandMismatch .ldh), s) := by
  intro i s
  have hbit (b : UInt8) (hb : Operand.bit b ∈ i.operands) : b < 8 := by
    simp [i, Instruction.operands] at hb
  have hvector (v : UInt8) (hv : Operand.vector v ∈ i.operands) : v % 8 = 0 ∧ v < 0x40 := by
    simp [i, Instruction.operands] at hv
  have hrefused : i.execute s = (.error (.operandMismatch .ldh), s) := rfl
  have hneither := (executed_iff_has_encoding (i := i) rfl hbit hvector s).2.mp hrefused
  exact ⟨⟨rfl, hbit, hvector⟩, (not_or.mp hneither).1, hrefused⟩

/-- The load of the cell at `HL` into itself has no encoding, and is executed. -/
theorem load_of_cell_into_itself_is_executed :
    let i : Instruction := ⟨.ld, some (.reg8 .atHL), some (.reg8 .atHL)⟩
    let s : Core Memory := ⟨.postBoot, {}⟩
    (i.isInvalid = false ∧ (∀ b, Operand.bit b ∈ i.operands → b < 8) ∧
      ∀ v, Operand.vector v ∈ i.operands → v % 8 = 0 ∧ v < 0x40) ∧
    ¬ i.HasEncoding ∧ (i.execute s).1 = .ok ⟨8, .none⟩ := by
  intro i s
  refine ⟨⟨rfl, fun b hb => ?_, fun v hv => ?_⟩, fun hencoding => ?_, rfl⟩
  · simp [i, Instruction.operands] at hb
  · simp [i, Instruction.operands] at hv
  · obtain ⟨op, hfound, hop⟩ := Instruction.hasEncoding_iff.mp hencoding
    have hload : op = .load .atHL .atHL := by
      have hasked := congrArg Instruction.operation? hop
      rw [Instruction.operation?_toInstruction] at hasked
      exact Option.some.inj hasked
    rcases hfound with ⟨-, hne⟩ | ⟨b, -, hb⟩
    · exact hne hload
    · rw [hload] at hb
      cases hb

end Sm83
