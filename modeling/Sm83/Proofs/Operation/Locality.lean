import Sm83.Memory.Basic
import Sm83.Proofs.Bus.Journal
import Sm83.Proofs.Operation.Decoding

/-!
# Decoding reads the encoding and nothing else

What is found at an address is determined by the bytes of its encoding. Other bytes may change, the
encoding may be moved to another address, or lie across the end of the address space, or be read
from a list instead of memory: the same operation of the same length is found.

## Main results

* `operationOf?_fetchedBytes` — the bytes that are fetched encode the operation that is found.
* `fetch_eq_of_same_bytes` — what is found where the same bytes stand.
* `decoding_reads_only_encoding` — the operations at the same bytes, in sources, memories and lists.
-/

namespace Sm83

/-- The bytes that are fetched encode the operation that is found. -/
theorem operationOf?_fetchedBytes (read : UInt16 → UInt8) (pc : UInt16) :
    operationOf? (fetchedBytes read pc) = some (fetch pc read).1.operation := by
  have hread (a : UInt16) : ByteSource.read a read = (read a, read) := rfl
  have hnext : pc + 1 + 1 = pc + 2 := by rw [UInt16.add_assoc]; rfl
  unfold fetchedBytes
  cases h : template (read pc) with
  | plain op =>
    rw [fetch_of_template_plain h]
    simp [List.range_succ, operationOf?, h, Template.fill?]
  | byte op =>
    rw [fetch_of_template_byte h]
    simp [List.range_succ, operationOf?, h, Template.fill?, hread]
  | word op =>
    rw [fetch_of_template_word h]
    simp [List.range_succ, operationOf?, h, Template.fill?, hread, ByteSource.readWord, hnext]

/-- Where the same bytes stand the same operation is found, with the same length. -/
theorem fetch_eq_of_same_bytes {read read' : UInt16 → UInt8} {pc pc' : UInt16}
    (h : ∀ i < (fetch pc read).1.length,
      read' (pc' + UInt16.ofNat i) = read (pc + UInt16.ofNat i)) :
    (fetch pc' read').1 = { (fetch pc read).1 with
      next := pc' + UInt16.ofNat (fetch pc read).1.length } := by
  have hlength := length_fetchedBytes read pc
  have hread : ∀ i < (fetchedBytes read pc).length,
      (fetchedBytes read pc)[i]? = some (read' (pc' + UInt16.ofNat i)) := by
    intro i hi
    rw [hlength] at hi
    rw [getElem?_fetchedBytes hi, h i hi]
  rw [fetch_eq_of_operationOf? (operationOf?_fetchedBytes read pc) hread, hlength]

/-- In a source that reads do not change, the same is found as in the function that it shows. -/
theorem fetch_eq_of_read_eq {β : Type u} [ByteSource β] {src : β} {read : UInt16 → UInt8}
    (h : ∀ addr, ByteSource.read addr src = (read addr, src)) (pc : UInt16) :
    fetch pc src = ((fetch pc read).1, src) := by
  have hread (addr : UInt16) : ByteSource.read addr read = (read addr, read) := rfl
  unfold fetch
  simp only [ByteSource.readWord, h, hread]
  split <;> rfl

theorem fetch_memory (m : Memory) (pc : UInt16) : fetch pc m = ((fetch pc m.read8).1, m) :=
  fetch_eq_of_read_eq m.read_eq pc

/-- In a list that starts with the bytes of an encoding the same is found, also where the encoding
lies across the end of the address space. -/
theorem decodeSlice_eq_of_getElem? {read : UInt16 → UInt8} {pc : UInt16} {bytes : List UInt8}
    (h : ∀ i < (fetch pc read).1.length, bytes[i]? = some (read (pc + UInt16.ofNat i))) :
    decodeSlice bytes pc = (fetch pc read).1 := by
  have hshort : (fetch pc read).1.length ≤ 3 := length_fetch pc read ▸ Template.size_le_three _
  have hsame : ∀ i < (fetch pc read).1.length,
      bytesAt bytes pc (pc + UInt16.ofNat i) = read (pc + UInt16.ofNat i) := by
    intro i hi
    rw [bytesAt_add_ofNat bytes pc (by omega), List.getD_eq_getElem?_getD, h i hi, Option.getD_some]
  rw [decodeSlice, fetch_eq_of_same_bytes hsame, ← next_fetch]

/-- **Decoding reads the encoding and nothing else.** Two sources with the same bytes from an
address on, as many as the encoding in the first has, lead to the same result; with the same bytes
at different addresses they lead to the same instruction of the same length. In memory exactly the
bytes of the encoding are read and nothing is changed, and the result is that for any list that
starts with these bytes. All addresses are taken modulo `2 ^ 16`. -/
theorem decoding_reads_only_encoding :
    (∀ (read read' : UInt16 → UInt8) (pc : UInt16),
      (∀ i < (fetch pc read).1.length,
        read' (pc + UInt16.ofNat i) = read (pc + UInt16.ofNat i)) →
      (fetch pc read').1 = (fetch pc read).1) ∧
    (∀ (read read' : UInt16 → UInt8) (pc pc' : UInt16),
      (∀ i < (fetch pc read).1.length,
        read' (pc' + UInt16.ofNat i) = read (pc + UInt16.ofNat i)) →
      (fetch pc' read').1.instruction = (fetch pc read).1.instruction ∧
        (fetch pc' read').1.length = (fetch pc read).1.length) ∧
    ∀ (m : Memory) (pc : UInt16),
      fetch pc (⟨m, []⟩ : Journal Memory) =
        ((fetch pc m).1, ⟨m, fetchAccesses pc (fetch pc m).1.length⟩) ∧
      ∀ bytes : List UInt8,
        (∀ i < (fetch pc m).1.length, bytes[i]? = some (m.read8 (pc + UInt16.ofNat i))) →
        decodeSlice bytes pc = (fetch pc m).1 := by
  refine ⟨fun read read' pc h => ?_, fun read read' pc pc' h => ?_, fun m pc => ⟨?_, ?_⟩⟩
  · rw [fetch_eq_of_same_bytes h, ← next_fetch]
  · rw [fetch_eq_of_same_bytes h]
    exact ⟨rfl, rfl⟩
  · rw [fetch_journal, fetch_memory, List.nil_append]
  · intro bytes h
    rw [fetch_memory] at h ⊢
    exact decodeSlice_eq_of_getElem? h

/-- A jump across the end of the address space, from high RAM over `IE` to ROM: other bytes may
follow it, it may be moved to the start of a program, and it may be read from a list. -/
theorem jump_across_end_of_memory :
    let read := bytesAt [0xC3, 0x50, 0x01] 0xFFFE
    let read' := bytesAt [0xC3, 0x50, 0x01, 0xC9] 0xFFFE
    let moved := bytesAt [0xC3, 0x50, 0x01, 0xC9] 0x0100
    let m : Memory := (({} : Memory).write8 0xFFFE 0xC3).write8 0xFFFF 0x50
    let bytes : List UInt8 := [0xC3, 0x50, m.read8 0x0000, 0xC9]
    (fetch 0xFFFE read).1 = ⟨.jp none 0x0150, 3, 0x0001⟩ ∧
      (fetch 0xFFFE read').1 = (fetch 0xFFFE read).1 ∧
      (fetch 0x0100 moved).1.instruction = (fetch 0xFFFE read).1.instruction ∧
      (fetch 0x0100 moved).1.length = (fetch 0xFFFE read).1.length ∧
      (fetch 0xFFFE m).1.length = 3 ∧ decodeSlice bytes 0xFFFE = (fetch 0xFFFE m).1 := by
  intro read read' moved m bytes
  have hjump : (fetch 0xFFFE read).1 = ⟨.jp none 0x0150, 3, 0x0001⟩ := by decide
  have hsame : ∀ i < (fetch 0xFFFE read).1.length,
      read' (0xFFFE + UInt16.ofNat i) = read (0xFFFE + UInt16.ofNat i) := by decide
  have hmoved : ∀ i < (fetch 0xFFFE read).1.length,
      moved (0x0100 + UInt16.ofNat i) = read (0xFFFE + UInt16.ofNat i) := by decide
  have hlength : (fetch 0xFFFE m).1.length = 3 := by decide +kernel
  have hbytes : ∀ i < (fetch 0xFFFE m).1.length,
      bytes[i]? = some (m.read8 (0xFFFE + UInt16.ofNat i)) := by decide +kernel
  obtain ⟨hsources, haddresses, hmemory⟩ := decoding_reads_only_encoding
  exact ⟨hjump, hsources read read' 0xFFFE hsame, (haddresses read moved 0xFFFE 0x0100 hmoved).1,
    (haddresses read moved 0xFFFE 0x0100 hmoved).2, hlength, (hmemory m 0xFFFE).2 bytes hbytes⟩

end Sm83
