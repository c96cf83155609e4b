import Sm83.Proofs.Operation.Encoding

/-!
# Encodings are decoded

The encoding of an operation leads back to the operation. The opcode is put together from three
fields, so the opcode tables are looked up at the place that the fields name; there stands the
operation, with a hole for the bytes that follow. Two kinds of operations have no place of their
own: a restart to an address that is no restart vector, and the load of the cell at `HL` into
itself, whose place is taken by `HALT`. So it is known which operations are found in memory at all.

## Main definitions

* `Template.fill?` — the operation of a template with the bytes that follow the opcode.
* `operationOf?` — the operation that a list of bytes encodes.
* `Operation.Found` — the operations that can be found in memory.

## Main results

* `fetch_eq_of_operationOf?`, `operation_fetch_bytesAt` — what is found at an address, by the bytes
  from there on.
* `Operation.Encodable.operationOf?_encoding` — the opcode tables hold all encodable operations but
  one.
* `Operation.Encodable.operation_fetch_encoding` — encodings are decoded.
* `Operation.found_operation_fetch`, `Operation.Found.exists_decodeSlice` — the operations that are
  found in memory are those that can be.
-/

namespace Sm83

/-! ### The fields of opcodes -/

@[simp] theorem Reg8.ofBits_bits (r : Reg8) : ofBits r.bits = r := by
  cases r <;> rfl

@[simp] theorem AluOp.ofBits_bits (op : AluOp) : ofBits op.bits = op := by
  cases op <;> rfl

@[simp] theorem Shift.ofBits_bits (op : Shift) : ofBits op.bits = op := by
  cases op <;> rfl

@[simp] theorem block_opcode (x : Fin 4) (y z : Fin 8) : block (opcode x y z) = x := by
  revert x y z
  decide +kernel

@[simp] theorem row_opcode (x : Fin 4) (y z : Fin 8) : row (opcode x y z) = y := by
  revert x y z
  decide +kernel

@[simp] theorem column_opcode (x : Fin 4) (y z : Fin 8) : column (opcode x y z) = z := by
  revert x y z
  decide +kernel

/-! ### The first opcode table by fields -/

theorem template_opcode_zero (y z : Fin 8) : template (opcode 0 y z) = firstBlock y z := by
  simp [template]

/-- Outside of the place of `HALT` the second block holds loads. -/
theorem template_opcode_one {dst src : Reg8} (h : Operation.load dst src ≠ .load .atHL .atHL) :
    template (opcode 1 dst.bits src.bits) = .plain (.load dst src) := by
  have hplace : opcode 1 dst.bits src.bits ≠ 0x76 := by
    intro hhalt
    have hrow : dst.bits = 6 := by rw [← row_opcode 1 dst.bits src.bits, hhalt]; rfl
    have hcolumn : src.bits = 6 := by rw [← column_opcode 1 dst.bits src.bits, hhalt]; rfl
    rw [← dst.ofBits_bits, ← src.ofBits_bits, hrow, hcolumn] at h
    exact h rfl
  simp [template, hplace]

theorem template_opcode_two (y z : Fin 8) :
    template (opcode 2 y z) = .plain (.alu (AluOp.ofBits y) (Reg8.ofBits z)) := by
  simp [template]

theorem template_opcode_three {y z : Fin 8} {t : Template} (h : lastBlock? y z = some t) :
    template (opcode 3 y z) = t := by
  simp [template, h]

theorem extended_opcode_zero (op : Shift) (r : Reg8) :
    extended (opcode 0 op.bits r.bits) = .shift op r := by
  simp [extended]

theorem extended_opcode_one (i : Fin 8) (r : Reg8) : extended (opcode 1 i r.bits) = .bit i r := by
  simp [extended]

theorem extended_opcode_two (i : Fin 8) (r : Reg8) : extended (opcode 2 i r.bits) = .res i r := by
  simp [extended]

theorem extended_opcode_three (i : Fin 8) (r : Reg8) :
    extended (opcode 3 i r.bits) = .set i r := by
  simp [extended]

/-! ### Filling the holes of templates -/

/-- The operation of a template with the bytes that follow the opcode; `none` if these are too many
or too few. -/
def Template.fill? : Template → List UInt8 → Option Operation
  | plain op, [] => some op
  | byte op, [n] => some (op n)
  | word op, [low, high] => some (op (Sm83.word high low))
  | _, _ => none

/-- The operation that a list of bytes encodes, from the opcode to the last byte. -/
def operationOf? : List UInt8 → Option Operation
  | [] => none
  | b :: rest => (template b).fill? rest

theorem operationOf?_withWord {b : UInt8} {op : UInt16 → Operation} (h : template b = .word op)
    (w : UInt16) : operationOf? (Operation.withWord b w) = some (op w) := by
  rw [Operation.withWord, operationOf?, h, Template.fill?, word_highByte_lowByte]

theorem length_le_three_of_operationOf? {bytes : List UInt8} {op : Operation}
    (h : operationOf? bytes = some op) : bytes.length ≤ 3 := by
  cases bytes with
  | nil => cases h
  | cons b rest =>
    rw [operationOf?] at h
    unfold Template.fill? at h
    split at h
    case h_4 => cases h
    all_goals simp

/-- What is found at an address is what the bytes encode that are read from there on. -/
theorem fetch_eq_of_operationOf? {read : UInt16 → UInt8} {pc : UInt16} {bytes : List UInt8}
    {op : Operation} (h : operationOf? bytes = some op)
    (hread : ∀ i < bytes.length, bytes[i]? = some (read (pc + UInt16.ofNat i))) :
    (fetch pc read).1 = ⟨op, bytes.length, pc + UInt16.ofNat bytes.length⟩ := by
  have hsource (a : UInt16) : ByteSource.read a read = (read a, read) := rfl
  have hnext : pc + 1 + 1 = pc + 2 := by rw [UInt16.add_assoc]; rfl
  cases bytes with
  | nil => cases h
  | cons b rest =>
    obtain rfl : b = read pc := by simpa using hread 0 (by simp)
    rw [operationOf?] at h
    cases ht : template (read pc) with
    | plain f =>
      rw [ht] at h
      rw [fetch_of_template_plain ht]
      cases rest with
      | nil => cases h; rfl
      | cons _ _ => cases h
    | byte f =>
      rw [ht] at h
      rw [fetch_of_template_byte ht]
      rcases rest with _ | ⟨n, _ | ⟨_, _⟩⟩
      · cases h
      · obtain rfl : n = read (pc + 1) := by simpa using hread 1 (by simp)
        cases h
        rfl
      · cases h
    | word f =>
      rw [ht] at h
      rw [fetch_of_template_word ht]
      rcases rest with _ | ⟨low, _ | ⟨high, _ | ⟨_, _⟩⟩⟩
      · cases h
      · cases h
      · obtain rfl : low = read (pc + 1) := by simpa using hread 1 (by simp)
        obtain rfl : high = read (pc + 2) := by simpa using hread 2 (by simp)
        cases h
        simp only [ByteSource.readWord, hsource, hnext]
        rfl
      · cases h

theorem bytesAt_add_ofNat (bytes : List UInt8) (start : UInt16) {i : Nat} (hi : i < 0x10000) :
    bytesAt bytes start (start + UInt16.ofNat i) = bytes.getD i 0 := by
  have hoffset : start + UInt16.ofNat i - start = UInt16.ofNat i := by grind
  rw [bytesAt, hoffset, UInt16.toNat_ofNat', Nat.mod_eq_of_lt hi]

/-- What is found at the start of a list of bytes. -/
theorem operation_fetch_bytesAt {bytes : List UInt8} {op : Operation}
    (h : operationOf? bytes = some op) (pc : UInt16) :
    (fetch pc (bytesAt bytes pc)).1.operation = op := by
  have hlength := length_le_three_of_operationOf? h
  have hread : ∀ i < bytes.length, bytes[i]? = some (bytesAt bytes pc (pc + UInt16.ofNat i)) := by
    intro i hi
    rw [bytesAt_add_ofNat bytes pc (by omega), List.getD_eq_getElem?_getD,
      List.getElem?_eq_getElem hi, Option.getD_some]
  rw [fetch_eq_of_operationOf? h hread]

/-! ### Encodings -/

namespace Operation

/-- The opcode tables hold every encodable operation, but for the load of the cell at `HL` into
itself. -/
theorem Encodable.operationOf?_encoding {op : Operation} (h : op.Encodable)
    (hload : op ≠ load .atHL .atHL) (pad : UInt8) : operationOf? (op.encoding pad) = some op := by
  cases op with
  | load dst src => rw [encoding, operationOf?, template_opcode_one hload]; rfl
  | alu op src => simp [encoding, operationOf?, template_opcode_two, Template.fill?]
  | invalid b => exact h.elim
  | rst v =>
    have hall : (restartVectors.all fun v => UInt8.ofNat (8 * (restartRow v).val) == v) = true := by
      decide
    have hv : UInt8.ofNat (8 * (restartRow v).val) = v :=
      beq_iff_eq.mp (List.all_eq_true.mp hall v h)
    rw [encoding, operationOf?, template_opcode_three rfl, hv]
    rfl
  | jp cond n | call cond n =>
    cases cond with
    | none => exact operationOf?_withWord (template_opcode_three rfl) n
    | some cc => cases cc <;> exact operationOf?_withWord (template_opcode_three rfl) n
  | jr cond e =>
    cases cond with
    | none => exact congrArg (fun e => some (jr none e)) e.toInt8_toUInt8
    | some cc => cases cc <;> exact congrArg (fun e => some (jr _ e)) e.toInt8_toUInt8
  | addSP e => exact congrArg (fun e => some (addSP e)) e.toInt8_toUInt8
  | loadHLSP e => exact congrArg (fun e => some (loadHLSP e)) e.toInt8_toUInt8
  | ret cond =>
    cases cond with
    | none => rfl
    | some cc => cases cc <;> rfl
  | loadPair p n =>
    cases p <;> exact operationOf?_withWord (template_opcode_zero ..) n
  | storeSP n => exact operationOf?_withWord (template_opcode_zero ..) n
  | storeAbs n | loadAbs n => exact operationOf?_withWord (template_opcode_three rfl) n
  | shift op r => exact congrArg some (extended_opcode_zero op r)
  | bit i r => exact congrArg some (extended_opcode_one i r)
  | res i r => exact congrArg some (extended_opcode_two i r)
  | set i r => exact congrArg some (extended_opcode_three i r)
  | loadImm r n | inc r | dec r => cases r <;> rfl
  | storeAt p | loadAt p | incPair p | decPair p | addHL p | push p | pop p => cases p <;> rfl
  | aluImm op n | rotateA op => cases op <;> rfl
  | _ => rfl

/-- **Encodings are decoded.** -/
theorem Encodable.operation_fetch_encoding {op : Operation} (h : op.Encodable)
    (hload : op ≠ load .atHL .atHL) (pad : UInt8) (pc : UInt16) :
    (fetch pc (bytesAt (op.encoding pad) pc)).1.operation = op :=
  operation_fetch_bytesAt (h.operationOf?_encoding hload pad) pc

/-- The operations that can be found in memory: the encodable ones, but for the load of the cell at
`HL` into itself, and the opcode bytes without a meaning. -/
def Found (op : Operation) : Prop :=
  op.Encodable ∧ op ≠ load .atHL .atHL ∨ ∃ b ∈ unassignedOpcodes, op = invalid b

theorem found_operation_fetch {β : Type u} [ByteSource β] (pc : UInt16) (src : β) :
    (fetch pc src).1.operation.Found := by
  by_cases hmem : (ByteSource.read pc src).1 ∈ unassignedOpcodes
  · exact .inr ⟨_, hmem, operation_fetch_unassigned hmem⟩
  · exact .inl ⟨operation_fetch_encodable hmem, operation_fetch_ne_load_atHL pc src⟩

theorem Found.exists_decodeSlice {op : Operation} (h : op.Found) (pc : UInt16) :
    ∃ bytes, (decodeSlice bytes pc).operation = op := by
  rcases h with ⟨hop, hload⟩ | ⟨b, hb, rfl⟩
  · exact ⟨op.encoding 0, hop.operation_fetch_encoding hload 0 pc⟩
  · refine ⟨[b], operation_fetch_bytesAt ?_ pc⟩
    rw [operationOf?, template_of_mem_unassignedOpcodes hb]
    rfl

end Operation

end Sm83
