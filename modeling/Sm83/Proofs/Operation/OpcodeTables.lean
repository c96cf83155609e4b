import Mathlib.Tactic.SplitIfs
import Sm83.Cpu

/-!
# The opcode tables

Every byte starts an encoding of one to three bytes. The two opcode tables leave eleven places of
the first one without a meaning; what stands in any other place is executed whatever the state of
the registers and of the bus. The tables and the execution are tied together through the
predicate `Operation.Encodable`: the tables produce encodable operations only, and encodable
operations are executed.

## Main definitions

* `unassignedOpcodes` — the opcode bytes without a meaning.
* `restartVectors` — the addresses that a restart can call.
* `Template.size`, `Template.Forall` — the length of the encodings of a template, and a property
  of all its operations.
* `Operation.Encodable` — the operations with a meaning whose restart vector can be encoded.

## Main results

* `template_forall_encodable`, `template_of_mem_unassignedOpcodes` — what the first opcode table
  holds.
* `operation_fetch_encodable`, `fetch_of_mem_unassignedOpcodes` — what is fetched, by the first
  byte.
* `Operation.Encodable.execute_eq` — encodable operations are executed.
-/

namespace Sm83

/-- The opcode bytes without a meaning. -/
def unassignedOpcodes : List UInt8 :=
  [0xD3, 0xDB, 0xDD, 0xE3, 0xE4, 0xEB, 0xEC, 0xED, 0xF4, 0xFC, 0xFD]

/-- The addresses that a restart can call. -/
def restartVectors : List UInt8 :=
  [0x00, 0x08, 0x10, 0x18, 0x20, 0x28, 0x30, 0x38]

namespace Template

/-- The number of bytes of the encodings of a template. -/
def size : Template → Nat
  | plain _ => 1
  | byte _ => 2
  | word _ => 3

/-- A property of every operation of a template, whatever follows the opcode. -/
def Forall (P : Operation → Prop) : Template → Prop
  | plain op => P op
  | byte op => ∀ n, P (op n)
  | word op => ∀ w, P (op w)

theorem one_le_size (t : Template) : 1 ≤ t.size := by
  cases t <;> simp [size]

theorem size_le_three (t : Template) : t.size ≤ 3 := by
  cases t <;> simp [size]

end Template

/-! ### Fetching -/

section Fetch

variable {β : Type u} [ByteSource β] {pc : UInt16} {src : β}

theorem fetch_of_template_plain {op : Operation}
    (h : template (ByteSource.read pc src).1 = .plain op) :
    fetch pc src = (⟨op, 1, pc + 1⟩, (ByteSource.read pc src).2) := by
  simp only [fetch, h]

theorem fetch_of_template_byte {op : UInt8 → Operation}
    (h : template (ByteSource.read pc src).1 = .byte op) :
    fetch pc src = (⟨op (ByteSource.read (pc + 1) (ByteSource.read pc src).2).1, 2, pc + 2⟩,
      (ByteSource.read (pc + 1) (ByteSource.read pc src).2).2) := by
  simp only [fetch, h]

theorem fetch_of_template_word {op : UInt16 → Operation}
    (h : template (ByteSource.read pc src).1 = .word op) :
    fetch pc src = (⟨op (ByteSource.readWord (pc + 1) (ByteSource.read pc src).2).1, 3, pc + 3⟩,
      (ByteSource.readWord (pc + 1) (ByteSource.read pc src).2).2) := by
  simp only [fetch, h]

/-- The first byte of an encoding says how long the encoding is. -/
theorem length_fetch (pc : UInt16) (src : β) :
    (fetch pc src).1.length = (template (ByteSource.read pc src).1).size := by
  cases h : template (ByteSource.read pc src).1 with
  | plain op => rw [fetch_of_template_plain h]; rfl
  | byte op => rw [fetch_of_template_byte h]; rfl
  | word op => rw [fetch_of_template_word h]; rfl

theorem next_fetch (pc : UInt16) (src : β) :
    (fetch pc src).1.next = pc + UInt16.ofNat (fetch pc src).1.length := by
  cases h : template (ByteSource.read pc src).1 with
  | plain op => rw [fetch_of_template_plain h]; rfl
  | byte op => rw [fetch_of_template_byte h]; rfl
  | word op => rw [fetch_of_template_word h]; rfl

/-- What holds of every operation of a template holds of the operation that is fetched. -/
theorem operation_fetch_of_forall {P : Operation → Prop}
    (hP : (template (ByteSource.read pc src).1).Forall P) : P (fetch pc src).1.operation := by
  cases h : template (ByteSource.read pc src).1 with
  | plain op =>
    rw [h] at hP
    rw [fetch_of_template_plain h]
    exact hP
  | byte op =>
    rw [h] at hP
    rw [fetch_of_template_byte h]
    exact hP _
  | word op =>
    rw [h] at hP
    rw [fetch_of_template_word h]
    exact hP _

end Fetch

/-! ### Encodable operations -/

namespace Operation

/-- The operations that have an encoding with a meaning. Only the opcode bytes without a meaning
and the restarts to other addresses have none. -/
def Encodable : Operation → Prop
  | rst v => v ∈ restartVectors
  | invalid _ => False
  | _ => True

/-- The operation that an opcode byte without a meaning stands for is not encodable, and it is the
only one whose assembly form is a data byte. -/
theorem isInvalid_toInstruction {op : Operation} :
    op.toInstruction.isInvalid = true ↔ ∃ b, op = invalid b := by
  cases op with
  | invalid b => simp [toInstruction, Instruction.isInvalid]
  | alu op _ | aluImm op _ | shift op _ | rotateA op =>
    cases op <;> simp [toInstruction, Instruction.isInvalid, AluOp.mnemonic, Shift.mnemonic,
      Rotation.mnemonic]
  | jp cond _ | jr cond _ | call cond _ | ret cond =>
    cases cond <;> simp [toInstruction, conditional, Instruction.isInvalid]
  | _ => simp [toInstruction, Instruction.isInvalid]

theorem Encodable.ne_invalid {op : Operation} (h : op.Encodable) (b : UInt8) : op ≠ invalid b := by
  rintro rfl
  exact h

theorem Encodable.isInvalid_eq_false {op : Operation} (h : op.Encodable) :
    op.toInstruction.isInvalid = false := by
  rw [Bool.eq_false_iff, Ne, isInvalid_toInstruction]
  rintro ⟨b, hb⟩
  exact h.ne_invalid b hb

/-- A bit operand of an operation is the number of one of the eight bits. -/
theorem bit_lt_of_mem_operands {op : Operation} {i : UInt8}
    (h : Operand.bit i ∈ op.toInstruction.operands) : i < 8 := by
  have hlt (j : Fin 8) : UInt8.ofNat j < 8 := by revert j; decide
  cases op with
  | bit j _ | res j _ | set j _ =>
    obtain rfl : i = UInt8.ofNat j := by simpa [toInstruction, Instruction.operands] using h
    exact hlt j
  | jp cond _ | jr cond _ | call cond _ | ret cond =>
    cases cond <;> simp [toInstruction, conditional, Instruction.operands] at h
  | _ => simp [toInstruction, Instruction.operands] at h

/-- A vector operand of an encodable operation is one of the eight restart vectors. -/
theorem Encodable.vector_mem_of_mem_operands {op : Operation} (hop : op.Encodable) {v : UInt8}
    (h : Operand.vector v ∈ op.toInstruction.operands) : v ∈ restartVectors := by
  cases op with
  | rst w =>
    obtain rfl : v = w := by simpa [toInstruction, Instruction.operands] using h
    exact hop
  | jp cond _ | jr cond _ | call cond _ | ret cond =>
    cases cond <;> simp [toInstruction, conditional, Instruction.operands] at h
  | _ => simp [toInstruction, Instruction.operands] at h

variable {β : Type u} [Bus β]

theorem execute_eq_of_ne_invalid {op : Operation} (h : ∀ b, op ≠ invalid b) (s : Core β) :
    op.execute s = (.ok ⟨op.clocks s.regs.flags, op.control⟩, op.effect s) := by
  cases op with
  | invalid b => exact absurd rfl (h b)
  | _ => rfl

/-- An instruction that is no data byte is executed. -/
theorem execute_toInstruction_of_isInvalid_eq_false {op : Operation}
    (h : op.toInstruction.isInvalid = false) (s : Core β) :
    op.toInstruction.execute s = (.ok ⟨op.clocks s.regs.flags, op.control⟩, op.effect s) := by
  rw [Instruction.execute_toInstruction]
  refine execute_eq_of_ne_invalid (fun b hb => ?_) s
  rw [isInvalid_toInstruction.mpr ⟨b, hb⟩] at h
  exact Bool.false_ne_true h.symm

/-- An encodable operation is executed, whatever it is executed on. -/
theorem Encodable.execute_eq {op : Operation} (h : op.Encodable) (s : Core β) :
    op.execute s = (.ok ⟨op.clocks s.regs.flags, op.control⟩, op.effect s) :=
  execute_eq_of_ne_invalid h.ne_invalid s

end Operation

/-! ### The tables -/

theorem extended_encodable (opcode : UInt8) : (extended opcode).Encodable := by
  unfold extended
  dsimp only
  split <;> trivial

theorem controlTemplate_forall_encodable (y : Fin 8) :
    (controlTemplate y).Forall Operation.Encodable := by
  unfold controlTemplate
  split <;> simp [Template.Forall, Operation.Encodable]

theorem accumulatorOperation_encodable (y : Fin 8) : (accumulatorOperation y).Encodable := by
  unfold accumulatorOperation
  split <;> trivial

theorem firstBlock_forall_encodable (y z : Fin 8) :
    (firstBlock y z).Forall Operation.Encodable := by
  unfold firstBlock
  split
  case h_1 => exact controlTemplate_forall_encodable y
  case h_8 => exact accumulatorOperation_encodable y
  all_goals try dsimp only
  all_goals try split_ifs
  all_goals simp [Template.Forall, Operation.Encodable]

theorem popTemplate_forall_encodable (y : Fin 8) :
    (popTemplate y).Forall Operation.Encodable := by
  unfold popTemplate
  split_ifs
  · split <;> trivial
  · trivial

theorem restart_encodable (y : Fin 8) : (Operation.rst (UInt8.ofNat (8 * y.val))).Encodable := by
  have hmem : ∀ y : Fin 8, UInt8.ofNat (8 * y.val) ∈ restartVectors := by decide
  exact hmem y

theorem lastBlock?_forall_encodable {y z : Fin 8} {t : Template} (h : lastBlock? y z = some t) :
    t.Forall Operation.Encodable := by
  unfold lastBlock? at h
  split at h
  · obtain rfl := Option.some.inj h
    unfold returnTemplate
    split <;> simp [Template.Forall, Operation.Encodable]
  · obtain rfl := Option.some.inj h
    exact popTemplate_forall_encodable y
  · obtain rfl := Option.some.inj h
    unfold jumpTemplate
    split <;> simp [Template.Forall, Operation.Encodable]
  · split at h <;> cases h
    · simp [Template.Forall, Operation.Encodable]
    · exact extended_encodable
    · trivial
    · trivial
  · unfold callTemplate? at h
    split at h <;> cases h <;> simp [Template.Forall, Operation.Encodable]
  · split_ifs at h <;> cases h <;> simp [Template.Forall, Operation.Encodable]
  · obtain rfl := Option.some.inj h
    simp [Template.Forall, Operation.Encodable]
  · obtain rfl := Option.some.inj h
    exact restart_encodable y

/-- An opcode is put together from its three fields. -/
theorem opcode_eq_fields (opcode : UInt8) :
    opcode =
      UInt8.ofNat (64 * (block opcode).val + 8 * (row opcode).val + (column opcode).val) := by
  have h := opcode.toNat_lt
  apply UInt8.toNat_inj.mp
  simp only [block, row, column, twoBits, threeBits, UInt8.toNat_ofNat']
  omega

/-- The places of the last block without a meaning are those of the unassigned opcodes. -/
theorem lastBlock?_eq_none_iff {opcode : UInt8} (h : block opcode = 3) :
    lastBlock? (row opcode) (column opcode) = none ↔ opcode ∈ unassignedOpcodes := by
  have hplaces : ∀ y z : Fin 8, (lastBlock? y z).isNone = true ↔
      UInt8.ofNat (64 * 3 + 8 * y.val + z.val) ∈ unassignedOpcodes := by
    decide
  have hop := opcode_eq_fields opcode
  rw [h] at hop
  rw [← Option.isNone_iff_eq_none, hplaces]
  exact iff_of_eq (congrArg (· ∈ unassignedOpcodes) hop.symm)

theorem block_of_mem_unassignedOpcodes {opcode : UInt8} (h : opcode ∈ unassignedOpcodes) :
    block opcode = 3 := by
  have hblock : ∀ b ∈ unassignedOpcodes, block b = 3 := by decide +kernel
  exact hblock opcode h

/-- An opcode without a meaning stands for its own byte. -/
theorem template_of_mem_unassignedOpcodes {opcode : UInt8} (h : opcode ∈ unassignedOpcodes) :
    template opcode = .plain (.invalid opcode) := by
  have hblock := block_of_mem_unassignedOpcodes h
  rw [template, hblock, (lastBlock?_eq_none_iff hblock).mpr h]
  rfl

/-- What the first opcode table holds at every other place is encodable, whatever follows. -/
theorem template_forall_encodable {opcode : UInt8} (h : opcode ∉ unassignedOpcodes) :
    (template opcode).Forall Operation.Encodable := by
  unfold template
  dsimp only
  split
  · exact firstBlock_forall_encodable _ _
  · split_ifs <;> trivial
  · trivial
  · rename_i hblock
    obtain ⟨t, ht⟩ := Option.ne_none_iff_exists'.mp (mt (lastBlock?_eq_none_iff hblock).mp h)
    rw [ht]
    exact lastBlock?_forall_encodable ht

section Fetch

variable {β : Type u} [ByteSource β] {pc : UInt16} {src : β}

/-- A fetched operation is encodable, unless its first byte is an unassigned opcode. -/
theorem operation_fetch_encodable (h : (ByteSource.read pc src).1 ∉ unassignedOpcodes) :
    (fetch pc src).1.operation.Encodable :=
  operation_fetch_of_forall (template_forall_encodable h)

/-- An unassigned opcode is fetched alone. -/
theorem fetch_of_mem_unassignedOpcodes (h : (ByteSource.read pc src).1 ∈ unassignedOpcodes) :
    fetch pc src = (⟨.invalid (ByteSource.read pc src).1, 1, pc + 1⟩, (ByteSource.read pc src).2) :=
  fetch_of_template_plain (template_of_mem_unassignedOpcodes h)

theorem operation_fetch_unassigned (h : (ByteSource.read pc src).1 ∈ unassignedOpcodes) :
    (fetch pc src).1.operation = .invalid (ByteSource.read pc src).1 := by
  rw [fetch_of_mem_unassignedOpcodes h]

end Fetch

end Sm83
