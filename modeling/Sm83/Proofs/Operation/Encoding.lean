import Sm83.Proofs.Operation.OpcodeTables

/-!
# The encodings of operations

What the opcode tables take apart can be put together again. An operation has one encoding: its
opcode is built from the fields that select it and its operands, and the constants follow, words
with their lower byte first. Only the byte behind `STOP` is free, because nothing depends on it. So
the bytes that were fetched are the encoding of the operation that was found in them.

## Main definitions

* `Reg8.bits`, `Pair.bits`, `Pointer.bits`, `StackPair.bits`, `Cond.bits`, `AluOp.bits`,
  `Shift.bits`, `Rotation.bits` — the fields of opcodes that select operands and functions.
* `opcode` — the opcode with given fields.
* `Operation.encoding` — the bytes of an operation.
* `Template.Encodes` — the operations of a template start with an opcode.

## Main results

* `template_encodes` — what the first opcode table holds at an opcode starts with that opcode.
* `length_fetch_eq`, `encoding_fetch` — the bytes that were fetched are the encoding of the
  operation that was found.
-/

namespace Sm83

/-! ### The fields of opcodes -/

/-- The field that selects a byte operand. -/
def Reg8.bits : Reg8 → Fin 8
  | b => 0
  | c => 1
  | d => 2
  | e => 3
  | h => 4
  | l => 5
  | atHL => 6
  | a => 7

/-- The field that selects a register pair. -/
def Pair.bits : Pair → Fin 4
  | bc => 0
  | de => 1
  | hl => 2
  | sp => 3

/-- The field that selects a memory pointer. -/
def Pointer.bits : Pointer → Fin 4
  | bc => 0
  | de => 1
  | hlInc => 2
  | hlDec => 3

/-- The field that selects a stack pair. -/
def StackPair.bits : StackPair → Fin 4
  | bc => 0
  | de => 1
  | hl => 2
  | af => 3

/-- The field that selects a condition. -/
def Cond.bits : Cond → Fin 4
  | nz => 0
  | z => 1
  | nc => 2
  | c => 3

/-- The field that selects an operation of the accumulator. -/
def AluOp.bits : AluOp → Fin 8
  | add => 0
  | adc => 1
  | sub => 2
  | sbc => 3
  | and => 4
  | xor => 5
  | or => 6
  | cp => 7

/-- The field that selects a rotate or shift. -/
def Shift.bits : Shift → Fin 8
  | rlc => 0
  | rrc => 1
  | rl => 2
  | rr => 3
  | sla => 4
  | sra => 5
  | swap => 6
  | srl => 7

/-- The field that selects a rotate of the accumulator. -/
def Rotation.bits : Rotation → Fin 8
  | rlc => 0
  | rrc => 1
  | rl => 2
  | rr => 3

@[simp] theorem Reg8.bits_ofBits (i : Fin 8) : (Reg8.ofBits i).bits = i := by
  revert i
  decide

@[simp] theorem Pair.bits_ofBits (i : Fin 4) : (Pair.ofBits i).bits = i := by
  revert i
  decide

@[simp] theorem Pointer.bits_ofBits (i : Fin 4) : (Pointer.ofBits i).bits = i := by
  revert i
  decide

@[simp] theorem StackPair.bits_ofBits (i : Fin 4) : (StackPair.ofBits i).bits = i := by
  revert i
  decide

@[simp] theorem AluOp.bits_ofBits (i : Fin 8) : (AluOp.ofBits i).bits = i := by
  revert i
  decide

@[simp] theorem Shift.bits_ofBits (i : Fin 8) : (Shift.ofBits i).bits = i := by
  revert i
  decide

/-- The opcode with the given block, row and column. -/
def opcode (x : Fin 4) (y z : Fin 8) : UInt8 :=
  UInt8.ofNat (64 * x.val + 8 * y.val + z.val)

@[simp] theorem opcode_fields (b : UInt8) : opcode (block b) (row b) (column b) = b :=
  (opcode_eq_fields b).symm

/-- The row with the given upper bits and lowest bit. -/
def pairRow (p : Fin 4) (odd : Bool) : Fin 8 :=
  ⟨2 * p.val + odd.toNat, by have := odd.toNat_le; omega⟩

@[simp] theorem pairRow_fields (y : Fin 8) : pairRow (rowPair y) (rowOdd y) = y := by
  revert y
  decide

/-- The row of a restart. -/
def restartRow (v : UInt8) : Fin 8 :=
  threeBits (v.toNat / 8)

@[simp] theorem restartRow_ofNat (y : Fin 8) : restartRow (UInt8.ofNat (8 * y.val)) = y := by
  revert y
  decide

/-! ### Encodings -/

namespace Operation

/-- An opcode that a word follows. -/
def withWord (opcode : UInt8) (w : UInt16) : List UInt8 :=
  [opcode, lowByte w, highByte w]

/-- The bytes of an operation, with `pad` behind the opcode of `STOP`. -/
def encoding (pad : UInt8) : Operation → List UInt8
  | nop => [opcode 0 0 0]
  | stop => [opcode 0 2 0, pad]
  | halt => [opcode 1 6 6]
  | di => [opcode 3 6 3]
  | ei => [opcode 3 7 3]
  | load dst src => [opcode 1 dst.bits src.bits]
  | loadImm dst n => [opcode 0 dst.bits 6, n]
  | storeAt p => [opcode 0 (pairRow p.bits false) 2]
  | loadAt p => [opcode 0 (pairRow p.bits true) 2]
  | storeAbs addr => withWord (opcode 3 5 2) addr
  | loadAbs addr => withWord (opcode 3 7 2) addr
  | storeHigh n => [opcode 3 4 0, n]
  | loadHigh n => [opcode 3 6 0, n]
  | storeHighC => [opcode 3 4 2]
  | loadHighC => [opcode 3 6 2]
  | loadPair p n => withWord (opcode 0 (pairRow p.bits false) 1) n
  | storeSP addr => withWord (opcode 0 1 0) addr
  | loadSPHL => [opcode 3 7 1]
  | loadHLSP e => [opcode 3 7 0, e.toUInt8]
  | push p => [opcode 3 (pairRow p.bits false) 5]
  | pop p => [opcode 3 (pairRow p.bits false) 1]
  | alu op src => [opcode 2 op.bits src.bits]
  | aluImm op n => [opcode 3 op.bits 6, n]
  | inc r => [opcode 0 r.bits 4]
  | dec r => [opcode 0 r.bits 5]
  | incPair p => [opcode 0 (pairRow p.bits false) 3]
  | decPair p => [opcode 0 (pairRow p.bits true) 3]
  | addHL p => [opcode 0 (pairRow p.bits true) 1]
  | addSP e => [opcode 3 5 0, e.toUInt8]
  | rotateA op => [opcode 0 op.bits 7]
  | daa => [opcode 0 4 7]
  | cpl => [opcode 0 5 7]
  | scf => [opcode 0 6 7]
  | ccf => [opcode 0 7 7]
  | shift op r => [0xCB, opcode 0 op.bits r.bits]
  | bit i r => [0xCB, opcode 1 i r.bits]
  | res i r => [0xCB, opcode 2 i r.bits]
  | set i r => [0xCB, opcode 3 i r.bits]
  | jp none target => withWord (opcode 3 0 3) target
  | jp (some cc) target => withWord (opcode 3 (cc.bits.castAdd 4) 2) target
  | jpHL => [opcode 3 5 1]
  | jr none e => [opcode 0 3 0, e.toUInt8]
  | jr (some cc) e => [opcode 0 (cc.bits.natAdd 4) 0, e.toUInt8]
  | call none target => withWord (opcode 3 1 5) target
  | call (some cc) target => withWord (opcode 3 (cc.bits.castAdd 4) 4) target
  | ret none => [opcode 3 1 1]
  | ret (some cc) => [opcode 3 (cc.bits.castAdd 4) 0]
  | reti => [opcode 3 3 1]
  | rst v => [opcode 3 (restartRow v) 7]
  | invalid b => [b]

/-- Only the encoding of `STOP` has a byte that nothing depends on. -/
theorem encoding_eq_of_ne_stop {op : Operation} (h : op ≠ stop) (pad pad' : UInt8) :
    op.encoding pad = op.encoding pad' := by
  cases op with
  | stop => exact absurd rfl h
  | jp cond _ | jr cond _ | call cond _ | ret cond => cases cond <;> rfl
  | _ => rfl

end Operation

/-! ### The tables -/

/-- Every operation of a template has an encoding that starts with the given opcode and continues
with what follows it. -/
def Template.Encodes (b : UInt8) : Template → Prop
  | plain op => ∀ pad, op.encoding pad = [b]
  | byte op => ∀ n, (op n).encoding n = [b, n]
  | word op => ∀ pad w, (op w).encoding pad = Operation.withWord b w

theorem extended_encoding (b pad : UInt8) : (extended b).encoding pad = [0xCB, b] := by
  have hb := opcode_fields b
  unfold extended
  dsimp only
  split
  case h_1 h | h_2 h | h_3 h | h_4 h =>
    rw [h] at hb
    simp only [Operation.encoding, Shift.bits_ofBits, Reg8.bits_ofBits, hb]

theorem controlTemplate_encodes (y : Fin 8) : (controlTemplate y).Encodes (opcode 0 y 0) := by
  unfold controlTemplate
  split
  case h_1 => exact fun _ => rfl
  case h_2 => exact fun _ _ => rfl
  case h_3 => exact fun _ => rfl
  all_goals exact fun n => congrArg (fun e => [_, e]) n.toUInt8_toInt8

theorem accumulatorOperation_encoding (y : Fin 8) (pad : UInt8) :
    (accumulatorOperation y).encoding pad = [opcode 0 y 7] := by
  unfold accumulatorOperation
  split <;> rfl

theorem firstBlock_encodes (y z : Fin 8) : (firstBlock y z).Encodes (opcode 0 y z) := by
  have hrow := pairRow_fields y
  unfold firstBlock
  split
  case h_1 => exact controlTemplate_encodes y
  case h_8 => exact accumulatorOperation_encoding y
  all_goals try dsimp only
  all_goals try (cases hodd : rowOdd y <;> rw [hodd] at hrow)
  all_goals simp [Template.Encodes, Operation.encoding, hrow]

theorem returnTemplate_encodes (y : Fin 8) : (returnTemplate y).Encodes (opcode 3 y 0) := by
  unfold returnTemplate
  split
  case h_6 | h_8 => exact fun n => congrArg (fun e => [_, e]) n.toUInt8_toInt8
  all_goals exact fun _ => rfl

theorem popTemplate_encodes (y : Fin 8) : (popTemplate y).Encodes (opcode 3 y 1) := by
  have hrow := pairRow_fields y
  unfold popTemplate
  cases hodd : rowOdd y <;> rw [hodd] at hrow
  · simp [Template.Encodes, Operation.encoding, hrow]
  · rw [if_pos rfl]
    split
    case h_1 h | h_2 h | h_3 h | h_4 h =>
      rw [h] at hrow
      rw [← hrow]
      exact fun _ => rfl

theorem jumpTemplate_encodes (y : Fin 8) : (jumpTemplate y).Encodes (opcode 3 y 2) := by
  unfold jumpTemplate
  split
  case h_5 | h_7 => exact fun _ => rfl
  all_goals exact fun _ _ => rfl

theorem callTemplate?_encodes {y : Fin 8} {t : Template} (h : callTemplate? y = some t) :
    t.Encodes (opcode 3 y 4) := by
  unfold callTemplate? at h
  split at h <;> cases h <;> exact fun _ _ => rfl

theorem lastBlock?_encodes {y z : Fin 8} {t : Template} (h : lastBlock? y z = some t) :
    t.Encodes (opcode 3 y z) := by
  have hrow := pairRow_fields y
  unfold lastBlock? at h
  split at h
  · obtain rfl := Option.some.inj h
    exact returnTemplate_encodes y
  · obtain rfl := Option.some.inj h
    exact popTemplate_encodes y
  · obtain rfl := Option.some.inj h
    exact jumpTemplate_encodes y
  · split at h <;> cases h
    · exact fun _ _ => rfl
    · exact fun n => extended_encoding n n
    · exact fun _ => rfl
    · exact fun _ => rfl
  · exact callTemplate?_encodes h
  · cases hodd : rowOdd y <;> simp only [hodd, Bool.false_eq_true, if_false, if_true] at h hrow
    · obtain rfl := Option.some.inj h
      simp [Template.Encodes, Operation.encoding, hrow]
    · split_ifs at h with hcall
      obtain rfl := Option.some.inj h
      obtain rfl : y = 1 := Fin.ext hcall
      exact fun _ _ => rfl
  · obtain rfl := Option.some.inj h
    simp [Template.Encodes, Operation.encoding]
  · obtain rfl := Option.some.inj h
    exact fun _ => congrArg (fun y => [opcode 3 y 7]) (restartRow_ofNat y)

/-- What the first opcode table holds at an opcode starts with that opcode. -/
theorem template_encodes (b : UInt8) : (template b).Encodes b := by
  have hb := opcode_fields b
  unfold template
  dsimp only
  split
  · rename_i hblock
    have hfirst := firstBlock_encodes (row b) (column b)
    rwa [← hblock, hb] at hfirst
  · rename_i hblock
    rw [hblock] at hb
    split_ifs with hhalt
    · subst hhalt
      exact fun _ => rfl
    · simp [Template.Encodes, Operation.encoding, hb]
  · rename_i hblock
    rw [hblock] at hb
    simp [Template.Encodes, Operation.encoding, hb]
  · rename_i hblock
    rw [hblock] at hb
    cases hplace : lastBlock? (row b) (column b) with
    | none => exact fun _ => rfl
    | some t =>
      have hlast := lastBlock?_encodes hplace
      rwa [hb] at hlast

/-! ### Fetching -/

/-- The bytes that are read in a fetch, in order. -/
def fetchedBytes (read : UInt16 → UInt8) (pc : UInt16) : List UInt8 :=
  (List.range (fetch pc read).1.length).map fun i => read (pc + UInt16.ofNat i)

theorem getElem?_fetchedBytes {read : UInt16 → UInt8} {pc : UInt16} {i : Nat}
    (h : i < (fetch pc read).1.length) :
    (fetchedBytes read pc)[i]? = some (read (pc + UInt16.ofNat i)) := by
  rw [fetchedBytes, List.getElem?_map, List.getElem?_range h, Option.map_some]

theorem length_fetchedBytes (read : UInt16 → UInt8) (pc : UInt16) :
    (fetchedBytes read pc).length = (fetch pc read).1.length := by
  rw [fetchedBytes, List.length_map, List.length_range]

/-- As many bytes are fetched as the encoding of the operation has. -/
theorem length_fetch_eq {β : Type u} [ByteSource β] (pc : UInt16) (src : β) (pad : UInt8) :
    (fetch pc src).1.length = ((fetch pc src).1.operation.encoding pad).length := by
  have hencodes := template_encodes (ByteSource.read pc src).1
  cases h : template (ByteSource.read pc src).1 with
  | plain op =>
    rw [h] at hencodes
    rw [fetch_of_template_plain h, hencodes pad]
    rfl
  | byte op =>
    rw [h] at hencodes
    rw [fetch_of_template_byte h]
    generalize (ByteSource.read (pc + 1) (ByteSource.read pc src).2).1 = n
    have hop := hencodes n
    by_cases hstop : op n = .stop
    · rw [hstop]
      rfl
    · rw [Operation.encoding_eq_of_ne_stop hstop pad n, hop]
      rfl
  | word op =>
    rw [h] at hencodes
    rw [fetch_of_template_word h, hencodes pad]
    rfl

/-- The bytes that are fetched are the encoding of the operation that is found. -/
theorem encoding_fetch (read : UInt16 → UInt8) (pc : UInt16) :
    (fetch pc read).1.operation.encoding (read (pc + 1)) = fetchedBytes read pc := by
  have hencodes := template_encodes (read pc)
  have hread (a : UInt16) : ByteSource.read a read = (read a, read) := rfl
  have hnext : pc + 1 + 1 = pc + 2 := by rw [UInt16.add_assoc]; rfl
  unfold fetchedBytes
  cases h : template (read pc) with
  | plain op =>
    rw [h] at hencodes
    rw [fetch_of_template_plain h, hencodes]
    simp [List.range_succ]
  | byte op =>
    rw [h] at hencodes
    rw [fetch_of_template_byte h]
    simp only [hread, hencodes (read (pc + 1))]
    simp [List.range_succ]
  | word op =>
    rw [h] at hencodes
    rw [fetch_of_template_word h]
    simp only [hread, ByteSource.readWord, hencodes (read (pc + 1)), Operation.withWord,
      lowByte_word, highByte_word, hnext]
    simp [List.range_succ]

/-- No encoding is a load of the cell at `HL` into itself: its opcode is that of `HALT`. -/
theorem template_forall_ne_load_atHL (b : UInt8) :
    (template b).Forall (· ≠ .load .atHL .atHL) := by
  have hencodes := template_encodes b
  cases h : template b with
  | plain op =>
    rw [h] at hencodes
    rintro rfl
    obtain rfl : opcode 1 6 6 = b := List.singleton_inj.mp (hencodes 0)
    cases h
  | byte op =>
    rw [h] at hencodes
    intro n hload
    have hop := hencodes n
    rw [hload] at hop
    cases hop
  | word op =>
    rw [h] at hencodes
    intro w hload
    have hop := hencodes 0 w
    rw [hload] at hop
    cases hop

theorem operation_fetch_ne_load_atHL {β : Type u} [ByteSource β] (pc : UInt16) (src : β) :
    (fetch pc src).1.operation ≠ .load .atHL .atHL :=
  operation_fetch_of_forall (template_forall_ne_load_atHL _)

end Sm83
