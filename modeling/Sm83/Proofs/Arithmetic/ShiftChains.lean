import Sm83.Proofs.Arithmetic.Carries
import Sm83.Proofs.Memory.Places
import Sm83.Proofs.Operation.Program

/-!
# Chains of shifts

A long number is shifted by one bit byte by byte: to the left from its lowest byte on, to the right
from its highest one on. The first operation is a shift, and the others are rotates through the
carry, which brings the bit that fell out of one byte into the next one. Since a shift is a rotate
with a bit of its own, the rotates alone have to be looked at.

## Main definitions

* `LongShift.program` — the shifts, with other operations between them.
* `LongShift.Layout` — where the bytes are in front of each shift.
* `BytePlace.point` — the load of `HL` that makes an operand of a cell.

## Main results

* `Operation.look_effect_shift` — what a shift does to the bytes in registers and in plain RAM.
* `LongShift.Layout.shift` — one shift of the chain.
* `LongShift.Layout.digits` — what the chain leaves of each byte, and the carries in it.
* `LongShift.layout_in_place` — numbers that stay where they are.
-/

namespace Sm83

/-! ### One byte -/

/-- A rotate to the left doubles a byte, with a bit that comes in and one that falls out. -/
theorem toNat_rotateLeft (v : UInt8) (carry : Bool) :
    (Shift.rl.apply v carry).1.toNat + 256 * (Shift.rl.apply v carry).2.toNat =
      v.toNat + v.toNat + carry.toNat := by
  have hv := v.toNat_lt
  have hcarry := carry.toNat_le
  simp only [Shift.apply, UInt8.toNat_add, UInt8.toNat_mul, toNat_bitOf, UInt8.reduceToNat, topBit]
  by_cases hout : 128 ≤ v.toNat
  · rw [decide_eq_true hout, Bool.toNat_true]
    omega
  · rw [decide_eq_false hout, Bool.toNat_false]
    omega

/-- A rotate to the right halves a byte, with a bit that comes in and one that falls out. -/
theorem toNat_rotateRight (v : UInt8) (carry : Bool) :
    (Shift.rr.apply v carry).1.toNat + (Shift.rr.apply v carry).1.toNat +
        (Shift.rr.apply v carry).2.toNat =
      v.toNat + 256 * carry.toNat := by
  have hv := v.toNat_lt
  have hcarry := carry.toNat_le
  have hlow : (lowBit v).toNat = v.toNat % 2 := by
    rcases Nat.mod_two_eq_zero_or_one v.toNat with hbit | hbit <;> simp [lowBit, hbit]
  simp only [Shift.apply, hlow, UInt8.toNat_add, UInt8.toNat_mul, UInt8.toNat_div, toNat_bitOf,
    UInt8.reduceToNat]
  omega

/-- A shift of an operand leaves the shifted byte at its place and the other plain places alone, and
the bit that fell out in the carry. -/
theorem Operation.look_effect_shift (op : Shift) {r : Reg8} {s : Core Memory}
    (hr : (s.regs.place r).IsPlain s.bus) :
    let t := (shift op r).effect s
    let d := op.apply (s.look (s.regs.place r)) s.regs.flags.c
    t.look (s.regs.place r) = d.1 ∧ t.regs.flags.c = d.2 ∧
      ∀ p : BytePlace, p.IsPlain s.bus → p ≠ s.regs.place r → t.look p = s.look p := by
  intro t d
  let stored := s.writeOperand r d.1
  have heffect : t =
      { stored with regs := { stored.regs with flags := { z := d.1 == 0, c := d.2 } } } := by
    cases r <;> rfl
  rw [heffect]
  refine ⟨?_, rfl, fun p hp hne => ?_⟩
  · rw [Core.look_setFlags, Core.look_writeOperand_self hr]
  · rw [Core.look_setFlags, Core.look_writeOperand_of_ne hr hp hne]

/-! ### Programs -/

/-- The shifts of a long number by one bit. -/
inductive LongShift where
  | left
  | logicalRight
  | arithmeticRight
  deriving DecidableEq, Repr

namespace LongShift

/-- The operation on a byte: from the second byte on, the carry is taken in. -/
def op : LongShift → ℕ → Shift
  | left, 0 => .sla
  | left, _ + 1 => .rl
  | logicalRight, 0 => .srl
  | arithmeticRight, 0 => .sra
  | logicalRight, _ + 1 | arithmeticRight, _ + 1 => .rr

/-- The byte, of `n` bytes, that is shifted as number `i`. -/
def byte : LongShift → ℕ → ℕ → ℕ
  | left, _, i => i
  | logicalRight, n, i | arithmeticRight, n, i => n - 1 - i

/-- The shifts of the first `n` bytes, with other operations in front of each of them and at the
end. -/
def program (k : LongShift) (operand : ℕ → Reg8) (between : ℕ → List Operation) :
    ℕ → List Operation
  | 0 => between 0
  | n + 1 => program k operand between n ++ .shift (k.op n) (operand n) :: between (n + 1)

/-- The rotate that takes the carry in. -/
def rotation : LongShift → Shift
  | left => .rl
  | logicalRight | arithmeticRight => .rr

/-- The bit that comes into the first byte. -/
def fill (k : LongShift) (v : UInt8) : Bool :=
  match k with
  | left | logicalRight => false
  | arithmeticRight => topBit v

/-- The first shift is a rotate with a bit of its own. -/
theorem apply_op_zero (k : LongShift) (v : UInt8) (carry : Bool) :
    (k.op 0).apply v carry = k.rotation.apply v (k.fill v) := by
  cases k with
  | left | logicalRight => simp [op, rotation, fill, Shift.apply, bitOf]
  | arithmeticRight => rfl

theorem op_succ (k : LongShift) (i : ℕ) : k.op (i + 1) = k.rotation := by
  cases k <;> rfl

theorem byte_lt (k : LongShift) {n i : ℕ} (hi : i < n) : k.byte n i < n := by
  cases k with
  | left => exact hi
  | logicalRight | arithmeticRight =>
    simp only [byte]
    omega

theorem byte_byte (k : LongShift) {n i : ℕ} (hi : i < n) : k.byte n (k.byte n i) = i := by
  cases k with
  | left => rfl
  | logicalRight | arithmeticRight =>
    simp only [byte]
    omega

theorem byte_ne (k : LongShift) {n i t : ℕ} (hi : i < n) (ht : t < n) (hne : t ≠ i) :
    k.byte n t ≠ k.byte n i := fun heq =>
  hne ((k.byte_byte ht).symm.trans ((congrArg (k.byte n) heq).trans (k.byte_byte hi)))

variable (k : LongShift) (operand : ℕ → Reg8) (between : ℕ → List Operation) (s : Core Memory)

/-- The state in front of shift number `i`. -/
def before (i : ℕ) : Core Memory :=
  s.run (k.program operand between i)

/-- The bit that comes into the byte shifted as number `i`. -/
def carryIn (n : ℕ) (x : ℕ → UInt8) : ℕ → Bool
  | 0 => k.fill (x (k.byte n 0))
  | i + 1 => (k.before operand between s (i + 1)).regs.flags.c

/-- The shifts find the `n` bytes `x`: in front of shift number `i`, byte `j` is at `place i j`. -/
structure Layout (n : ℕ) (x : ℕ → UInt8) (place : ℕ → ℕ → BytePlace) : Prop where
  /-- The other operations do not change flags. -/
  quiet : ∀ i ≤ n, ∀ op ∈ between i, op.Encodable ∧ op.setsFlags = false
  /-- The number is there in front of the first shift. -/
  start : ∀ j < n, (k.before operand between s 0).look (place 0 j) = x j
  /-- The bytes are in registers or in plain RAM. -/
  plain : ∀ i < n, ∀ j < n, (place i j).IsPlain s.bus
  /-- No two of them are at the same place. -/
  distinct : ∀ i < n, ∀ j < n, ∀ j' < n, place i j = place i j' → j = j'
  /-- Each shift is on the operand that holds its byte. -/
  held : ∀ i < n, (k.before operand between s i).regs.place (operand i) = place i (k.byte n i)
  /-- The operations between two shifts leave the bytes alone, or move them to other places. -/
  moved : ∀ i < n, ∀ j < n, (k.before operand between s (i + 1)).look (place (i + 1) j) =
    ((Operation.shift (k.op i) (operand i)).effect (k.before operand between s i)).look (place i j)

@[simp] theorem carryIn_zero (n : ℕ) (x : ℕ → UInt8) :
    k.carryIn operand between s n x 0 = k.fill (x (k.byte n 0)) := rfl

/-- The bit that fell out of the last byte is in the carry. -/
theorem carryIn_of_pos {n : ℕ} (hn : 0 < n) (x : ℕ → UInt8) :
    k.carryIn operand between s n x n = (k.before operand between s n).regs.flags.c := by
  obtain ⟨m, rfl⟩ := Nat.exists_eq_add_one.mpr hn
  rfl

theorem before_succ (i : ℕ) :
    k.before operand between s (i + 1) =
      ((Operation.shift (k.op i) (operand i)).effect (k.before operand between s i)).run
        (between (i + 1)) := by
  rw [before, program, Core.run_append]
  rfl

namespace Layout

variable {k operand between s} {n : ℕ} {x : ℕ → UInt8} {place : ℕ → ℕ → BytePlace}

theorem encodable_program (h : k.Layout operand between s n x place) :
    ∀ op ∈ k.program operand between n, op.Encodable := by
  have hprogram : ∀ m ≤ n, ∀ op ∈ k.program operand between m, op.Encodable := by
    intro m hm
    induction m with
    | zero => exact fun op hop => (h.quiet 0 hm op hop).1
    | succ i ih =>
      simp only [program, List.forall_mem_append, List.forall_mem_cons]
      exact ⟨ih (Nat.le_of_succ_le hm), trivial, fun op hop => (h.quiet _ hm op hop).1⟩
  exact hprogram n le_rfl

/-- Every instruction of the program can be executed. -/
theorem executeAll_program (h : k.Layout operand between s n x place) :
    Instruction.executeAll ((k.program operand between n).map Operation.toInstruction) s =
      (.ok (), k.before operand between s n) :=
  Instruction.executeAll_toInstruction h.encodable_program s

/-- **One shift** changes its own byte and leaves a bit in the carry. -/
theorem shift (h : k.Layout operand between s n x place) {i : ℕ} (hi : i < n) :
    let t := k.before operand between s i
    let t' := k.before operand between s (i + 1)
    let d := (k.op i).apply (t.look (place i (k.byte n i))) t.regs.flags.c
    t'.look (place (i + 1) (k.byte n i)) = d.1 ∧ t'.regs.flags.c = d.2 ∧
      ∀ j < n, j ≠ k.byte n i → t'.look (place (i + 1) j) = t.look (place i j) := by
  intro t t' d
  have hmode : t.bus.isFlat = s.bus.isFlat := Core.isFlat_run s _
  have hplain {j : ℕ} (hj : j < n) : (place i j).IsPlain t.bus := (h.plain i hi j hj).congr hmode
  have hbyte := k.byte_lt hi
  have hheld := h.held i hi
  have hflags : t'.regs.flags = ((Operation.shift (k.op i) (operand i)).effect t).regs.flags := by
    rw [show t' = _ from k.before_succ operand between s i]
    exact Core.flags_run (fun op hop => (h.quiet _ hi op hop).2) _
  obtain ⟨hself, hcarry, hother⟩ :=
    Operation.look_effect_shift (k.op i) (r := operand i) (s := t) (hheld ▸ hplain hbyte)
  rw [hheld] at hself hcarry hother
  refine ⟨(h.moved i hi _ hbyte).trans hself, (congrArg Flags.c hflags).trans hcarry,
    fun j hj hne => (h.moved i hi j hj).trans (hother _ (hplain hj) fun hplace => ?_)⟩
  exact hne (h.distinct i hi j hj _ hbyte hplace)

/-- A byte is as it was until its turn comes. -/
theorem look_of_le (h : k.Layout operand between s n x place) {i t : ℕ} (hi : i ≤ t) (ht : t < n) :
    (k.before operand between s i).look (place i (k.byte n t)) = x (k.byte n t) := by
  induction i with
  | zero => exact h.start _ (k.byte_lt ht)
  | succ i ih =>
    have hin : i < n := Nat.lt_of_succ_lt (hi.trans_lt ht)
    have hkept := (h.shift hin).2.2 _ (k.byte_lt ht) (k.byte_ne hin ht (by omega))
    exact hkept.trans (ih (Nat.le_of_succ_le hi))

/-- What a shift leaves of its byte is there until the end. -/
theorem look_last (h : k.Layout operand between s n x place) {t : ℕ} (ht : t < n) :
    (k.before operand between s n).look (place n (k.byte n t)) =
      (k.before operand between s (t + 1)).look (place (t + 1) (k.byte n t)) := by
  have hlater : ∀ m, t + 1 ≤ m → m ≤ n →
      (k.before operand between s m).look (place m (k.byte n t)) =
        (k.before operand between s (t + 1)).look (place (t + 1) (k.byte n t)) := by
    intro m hm
    induction m, hm using Nat.le_induction with
    | base => exact fun _ => rfl
    | succ m hm ih =>
      intro hmn
      have hkept := (h.shift hmn).2.2 _ (k.byte_lt ht) (k.byte_ne hmn ht (by omega))
      exact hkept.trans (ih (Nat.le_of_succ_le hmn))
  exact hlater n ht le_rfl

/-- **All shifts**: each of them rotates its byte as it was, with the carry of the one before it. -/
theorem digits (h : k.Layout operand between s n x place) {i : ℕ} (hi : i < n) :
    let d := k.rotation.apply (x (k.byte n i)) (k.carryIn operand between s n x i)
    (k.before operand between s n).look (place n (k.byte n i)) = d.1 ∧
      k.carryIn operand between s n x (i + 1) = d.2 := by
  intro d
  have hd : (k.op i).apply (x (k.byte n i)) (k.before operand between s i).regs.flags.c = d := by
    cases i with
    | zero => exact k.apply_op_zero _ _
    | succ i =>
      rw [k.op_succ]
      rfl
  obtain ⟨hlook, hcarry, -⟩ := h.shift hi
  rw [h.look_of_le le_rfl hi, hd] at hlook hcarry
  exact ⟨(h.look_last hi).trans hlook, hcarry⟩

end Layout

end LongShift

/-! ### Bytes that stay in place -/

namespace BytePlace

/-- The operand for the byte at a place. -/
def operand : BytePlace → Reg8
  | register r => r
  | cell _ => .atHL

/-- What makes the operand stand for the place: for a cell, `HL` has to point to it. -/
def point : BytePlace → List Operation
  | register _ => []
  | cell addr => [.loadPair .hl addr]

variable {p q : BytePlace} {s : Core Memory}

theorem quiet_of_mem_point {op : Operation} (h : op ∈ p.point) :
    op.Encodable ∧ op.setsFlags = false := by
  cases p with
  | register r => simp [point] at h
  | cell addr =>
    obtain rfl := List.mem_singleton.mp h
    exact ⟨trivial, rfl⟩

theorem place_operand (hp : p.IsPlain s.bus) : (s.run p.point).regs.place p.operand = p := by
  cases p with
  | register r =>
    cases r with
    | atHL => exact absurd rfl hp
    | _ => rfl
  | cell addr => exact congrArg cell (word_highByte_lowByte addr)

theorem look_run_point (hq : q.IsPlain s.bus) (hh : q ≠ .register .h) (hl : q ≠ .register .l) :
    (s.run p.point).look q = s.look q := by
  cases p with
  | register r => rfl
  | cell addr =>
    cases q with
    | register r =>
      cases r with
      | h => exact absurd rfl hh
      | l => exact absurd rfl hl
      | atHL => exact absurd rfl hq
      | _ => rfl
    | cell addr => rfl

end BytePlace

/-- Numbers can be shifted in place, with their bytes in plain RAM and in registers other than `H`
and `L`. -/
theorem LongShift.layout_in_place (k : LongShift) {s : Core Memory} {n : ℕ} {x : ℕ → UInt8}
    {p : ℕ → BytePlace} (hx : ∀ j < n, s.look (p j) = x j)
    (hplain : ∀ j < n, (p j).IsPlain s.bus ∧ p j ≠ .register .h ∧ p j ≠ .register .l)
    (hdistinct : ∀ i < n, ∀ j < n, p i = p j → i = j) :
    k.Layout (fun i => (p (k.byte n i)).operand) (fun i => (p (k.byte n i)).point) s n x
      fun _ => p := by
  set operand : ℕ → Reg8 := fun i => (p (k.byte n i)).operand
  set between : ℕ → List Operation := fun i => (p (k.byte n i)).point
  let shifted (i : ℕ) : Core Memory :=
    (Operation.shift (k.op i) (operand i)).effect (k.before operand between s i)
  have hmode (i : ℕ) : (shifted i).bus.isFlat = s.bus.isFlat :=
    (Core.isFlat_run _ [.shift (k.op i) (operand i)]).trans (Core.isFlat_run s _)
  -- loads of `HL` move no byte of the number
  have hlook {t : Core Memory} (ht : t.bus.isFlat = s.bus.isFlat) (q : BytePlace) {j : ℕ}
      (hj : j < n) : (t.run q.point).look (p j) = t.look (p j) :=
    BytePlace.look_run_point ((hplain j hj).1.congr ht) (hplain j hj).2.1 (hplain j hj).2.2
  refine ⟨fun i _ op hop => BytePlace.quiet_of_mem_point hop, fun j hj => ?_,
    fun i _ j hj => (hplain j hj).1, fun i _ => hdistinct, fun i hi => ?_, fun i _ j hj => ?_⟩
  · exact (hlook rfl _ hj).trans (hx j hj)
  · have hpoint {t : Core Memory} (ht : t.bus.isFlat = s.bus.isFlat) :
        (t.run (between i)).regs.place (operand i) = p (k.byte n i) :=
      BytePlace.place_operand ((hplain _ (k.byte_lt hi)).1.congr ht)
    cases i with
    | zero => exact hpoint rfl
    | succ i =>
      rw [k.before_succ]
      exact hpoint (hmode i)
  · rw [k.before_succ]
    exact hlook (hmode i) _ hj

end Sm83
