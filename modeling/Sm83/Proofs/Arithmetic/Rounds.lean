import Sm83.Proofs.Memory.Places
import Sm83.Proofs.Operation.Program

/-!
# Rounds of byte arithmetic

A sum or difference of long numbers takes a round of instructions for each byte: moves that bring
the bytes of the operands into place, the arithmetic on the accumulator, for decimal numbers the
correction, and a store of the result. Moves leave the flags alone, so the carry of a round reaches
the arithmetic of the next one.

## Main definitions

* `Operation.Moves` — the operations that only move data.
* `Round`, `LongArithmetic.program` — one round, and rounds one after the other.
* `LongArithmetic.Layout` — which bytes the rounds work on and where they leave the result.

## Main results

* `Operation.Moves.setsFlags_eq_false` — moves leave the flags alone.
* `LongArithmetic.Layout.executeAll_program` — every instruction can be executed.
* `LongArithmetic.Layout.round` — what one round does.
* `LongArithmetic.layout_in_ram` — numbers in three places of RAM.
-/

namespace Sm83

/-! ### Moves -/

namespace Operation

/-- The operations that move data and do nothing else: those written `LD` or `LDH`, except for
`LD HL, SP+e`, which adds. -/
def Moves (op : Operation) : Prop :=
  op.toInstruction.mnemonic ∈ [.ld, .ldh] ∧ ∀ e, op ≠ loadHLSP e

theorem Moves.encodable {op : Operation} (h : op.Moves) : op.Encodable := by
  cases op with
  | rst v | invalid b => simp [Moves, toInstruction] at h
  | _ => trivial

/-- Moves leave the flags alone. -/
theorem Moves.setsFlags_eq_false {op : Operation} (h : op.Moves) : op.setsFlags = false := by
  cases op with
  | loadHLSP e => exact absurd rfl (h.2 e)
  | alu op _ | aluImm op _ | shift op _ | rotateA op =>
    cases op <;> simp [Moves, toInstruction, AluOp.mnemonic, Shift.mnemonic, Rotation.mnemonic] at h
  | inc _ | dec _ | addHL _ | addSP _ | daa | cpl | scf | ccf | bit _ _ | pop _ =>
    simp [Moves, toInstruction] at h
  | _ => rfl

end Operation

/-! ### Stores of the accumulator -/

/-- Where a move puts the content of `A`, for moves that do that. -/
def Operation.storePlace? (regs : RegisterFile) : Operation → Option BytePlace
  | load .atHL .a => some (.cell regs.hl)
  | load r .a => some (.register r)
  | storeAt p => some (.cell (regs.pointer p).1)
  | storeAbs addr => some (.cell addr)
  | storeHigh n => some (.cell (highAddress n))
  | storeHighC => some (.cell (highAddress regs.c))
  | _ => none

theorem Operation.moves_of_storePlace?_eq_some {op : Operation} {regs : RegisterFile}
    {p : BytePlace} (h : op.storePlace? regs = some p) : op.Moves := by
  cases op with
  | load _ _ | storeAt _ | storeAbs _ | storeHigh _ | storeHighC =>
    simp [Moves, toInstruction]
  | _ => exact absurd h.symm (Option.some_ne_none p)

theorem Operation.storePlace?_congr (op : Operation) (regs : RegisterFile) (a : UInt8)
    (flags : Flags) :
    op.storePlace? { regs with a := a, flags := flags } = op.storePlace? regs := by
  cases op with
  | load dst src => cases dst <;> cases src <;> rfl
  | storeAt p => cases p <;> rfl
  | _ => rfl

/-- What is stored is found at its place. -/
theorem Core.look_effect_of_storePlace? {op : Operation} {s : Core Memory} {p : BytePlace}
    (h : op.storePlace? s.regs = some p) (hp : p.Holds s.bus) :
    (op.effect s).look p = s.regs.a := by
  cases op with
  | load dst src =>
    cases src with
    | a =>
      cases dst with
      | atHL =>
        obtain rfl := Option.some.inj h
        exact Memory.read8_write8_self_of_holds hp _
      | _ =>
        obtain rfl := Option.some.inj h
        rfl
    | _ => cases dst <;> exact absurd h.symm (Option.some_ne_none p)
  | storeAt _ | storeAbs _ | storeHigh _ | storeHighC =>
    obtain rfl := Option.some.inj h
    exact Memory.read8_write8_self_of_holds hp _
  | _ => exact absurd h.symm (Option.some_ne_none p)

/-! ### Rounds -/

/-- The second operand of byte arithmetic. -/
inductive ByteOperand where
  | stored (r : Reg8)
  | constant (n : UInt8)
  deriving DecidableEq, Repr

namespace ByteOperand

/-- The operation that combines the accumulator with the operand. -/
def combine (op : AluOp) : ByteOperand → Operation
  | stored r => .alu op r
  | constant n => .aluImm op n

/-- The byte that the operand stands for. -/
def value (s : Core Memory) : ByteOperand → UInt8
  | stored r => (s.readOperand r).1
  | constant n => n

theorem encodable_combine (o : ByteOperand) (op : AluOp) : (o.combine op).Encodable := by
  cases o <;> trivial

theorem effect_combine (o : ByteOperand) (op : AluOp) (s : Core Memory) :
    (o.combine op).effect s = s.combine op (o.value s) := by
  cases o with
  | stored r => cases r <;> rfl
  | constant n => rfl

end ByteOperand

/-- The instructions for one byte of a long number, the arithmetic itself apart. -/
structure Round where
  /-- The moves that bring the bytes of the two operands into place. -/
  moves : List Operation
  /-- Where the byte of the second operand is. That of the first one is in `A`. -/
  operand : ByteOperand
  /-- The store of the result. -/
  store : Operation

/-- Long sums and differences, of binary or of packed decimal numbers. -/
structure LongArithmetic where
  subtract : Bool
  decimal : Bool
  deriving DecidableEq, Repr

namespace LongArithmetic

/-- The operation on the accumulator: with the carry from the second round on. -/
def aluOp (k : LongArithmetic) (i : ℕ) : AluOp :=
  match k.subtract, i with
  | false, 0 => .add
  | false, _ + 1 => .adc
  | true, 0 => .sub
  | true, _ + 1 => .sbc

/-- The correction of decimal results. -/
def correction (k : LongArithmetic) : List Operation :=
  if k.decimal then [.daa] else []

/-- The instructions of a round. -/
def roundProgram (k : LongArithmetic) (r : Round) (i : ℕ) : List Operation :=
  r.moves ++ (r.operand.combine (k.aluOp i) :: k.correction) ++ [r.store]

/-- The instructions of the first `n` rounds. -/
def program (k : LongArithmetic) (rounds : ℕ → Round) : ℕ → List Operation
  | 0 => []
  | n + 1 => program k rounds n ++ k.roundProgram (rounds n) n

/-- The result and the flags of a digit with the carry into it. -/
def digit (k : LongArithmetic) (x y : UInt8) (carry : Bool) : UInt8 × Flags :=
  let r := if k.subtract then subBytes x y carry else addBytes x y carry
  if k.decimal then decimalAdjust r.1 r.2 else r

variable (k : LongArithmetic) (rounds : ℕ → Round) (s : Core Memory)

/-- The state after the first `n` rounds. -/
def after (n : ℕ) : Core Memory :=
  s.run (k.program rounds n)

/-- The state in front of the arithmetic of a round. -/
def moved (i : ℕ) : Core Memory :=
  (k.after rounds s i).run (rounds i).moves

/-- The carry into a round. The first round does not take one. -/
def carryIn (i : ℕ) : Bool :=
  decide (i ≠ 0) && (k.after rounds s i).regs.flags.c

/-- `n` rounds work on the bytes `x` and `y` and leave the result at the places `z`. -/
structure Layout (n : ℕ) (x y : ℕ → UInt8) (z : ℕ → BytePlace) : Prop where
  /-- The operands are brought into place by moves. -/
  moves : ∀ i < n, ∀ op ∈ (rounds i).moves, op.Moves
  /-- The moves load a byte of the first operand into `A`. -/
  first : ∀ i < n, (k.moved rounds s i).regs.a = x i
  /-- The arithmetic takes a byte of the second operand. -/
  second : ∀ i < n, (rounds i).operand.value (k.moved rounds s i) = y i
  /-- The round ends with a store of `A` at the place for a byte of the result. -/
  store : ∀ i < n, (rounds i).store.storePlace? (k.moved rounds s i).regs = some (z i)
  /-- What is stored there is held there. -/
  holds : ∀ i < n, (z i).Holds s.bus
  /-- No later round touches the place. -/
  kept : ∀ i < n, (k.after rounds s n).look (z i) = (k.after rounds s (i + 1)).look (z i)

/-- The arithmetic of a round changes nothing but `A` and the flags. -/
theorem run_arithmetic (i : ℕ) (o : ByteOperand) :
    let d := k.digit s.regs.a (o.value s) (decide (i ≠ 0) && s.regs.flags.c)
    s.run (o.combine (k.aluOp i) :: k.correction) =
      { s with regs := { s.regs with a := d.1, flags := d.2 } } := by
  obtain ⟨subtract, decimal⟩ := k
  rw [Core.run_cons, o.effect_combine]
  cases i <;> cases subtract <;> cases decimal <;> rfl

/-- A round stores the result of the arithmetic. -/
theorem after_succ (i : ℕ) :
    let t := k.moved rounds s i
    let d := k.digit t.regs.a ((rounds i).operand.value t) (decide (i ≠ 0) && t.regs.flags.c)
    k.after rounds s (i + 1) =
      (rounds i).store.effect { t with regs := { t.regs with a := d.1, flags := d.2 } } := by
  intro t d
  have hround : k.after rounds s (i + 1) =
      (t.run ((rounds i).operand.combine (k.aluOp i) :: k.correction)).run [(rounds i).store] := by
    rw [after, program, Core.run_append, roundProgram, Core.run_append, Core.run_append]
    rfl
  rw [hround, run_arithmetic]
  rfl

@[simp] theorem carryIn_zero : k.carryIn rounds s 0 = false := rfl

/-- The carry out of the last round is in the flags. -/
theorem carryIn_of_pos {n : ℕ} (hn : 0 < n) :
    k.carryIn rounds s n = (k.after rounds s n).regs.flags.c := by
  simp [carryIn, hn.ne']

namespace Layout

variable {k rounds s} {n : ℕ} {x y : ℕ → UInt8} {z : ℕ → BytePlace}

theorem encodable_program (h : k.Layout rounds s n x y z) :
    ∀ op ∈ k.program rounds n, op.Encodable := by
  have hprogram : ∀ m ≤ n, ∀ op ∈ k.program rounds m, op.Encodable := by
    intro m hm
    induction m with
    | zero => simp [program]
    | succ i ih =>
      have hcorrection : ∀ op ∈ k.correction, op.Encodable := by
        unfold correction
        split_ifs
        · exact List.forall_mem_singleton.mpr trivial
        · exact List.forall_mem_nil _
      have hstore := (Operation.moves_of_storePlace?_eq_some (h.store i hm)).encodable
      simp only [program, roundProgram, List.forall_mem_append, List.forall_mem_cons]
      exact ⟨ih (Nat.le_of_lt hm), ⟨fun op hop => (h.moves i hm op hop).encodable,
        (rounds i).operand.encodable_combine _, hcorrection⟩, hstore, List.forall_mem_nil _⟩
  exact hprogram n le_rfl

/-- Every instruction of the rounds can be executed. -/
theorem executeAll_program (h : k.Layout rounds s n x y z) :
    Instruction.executeAll ((k.program rounds n).map Operation.toInstruction) s =
      (.ok (), k.after rounds s n) :=
  Instruction.executeAll_toInstruction h.encodable_program s

/-- **One round** computes a digit, stores it, and leaves its carry in the flags. -/
theorem round (h : k.Layout rounds s n x y z) {i : ℕ} (hi : i < n) :
    let d := k.digit (x i) (y i) (k.carryIn rounds s i)
    (k.after rounds s (i + 1)).look (z i) = d.1 ∧
      (k.after rounds s (i + 1)).regs.flags = d.2 := by
  intro d
  have hflags : (k.moved rounds s i).regs.flags = (k.after rounds s i).regs.flags :=
    Core.flags_run (fun op hop => (h.moves i hi op hop).setsFlags_eq_false) _
  have hmode : (k.moved rounds s i).bus.isFlat = s.bus.isFlat :=
    (Core.isFlat_run _ _).trans (Core.isFlat_run s _)
  let t : Core Memory :=
    { k.moved rounds s i with regs := { (k.moved rounds s i).regs with a := d.1, flags := d.2 } }
  have hafter : k.after rounds s (i + 1) = (rounds i).store.effect t := by
    rw [after_succ, h.first i hi, h.second i hi, hflags]
    rfl
  have hplace : (rounds i).store.storePlace? t.regs = some (z i) :=
    ((rounds i).store.storePlace?_congr _ _ _).trans (h.store i hi)
  have hholds : (z i).Holds t.bus := (h.holds i hi).congr hmode
  rw [hafter]
  exact ⟨Core.look_effect_of_storePlace? hplace hholds,
    ((rounds i).store.frame_effect t).flags
      (Operation.moves_of_storePlace?_eq_some hplace).setsFlags_eq_false⟩

/-- **All rounds**: the result holds the digits, and each of them takes the carry of the one before
it. -/
theorem digits (h : k.Layout rounds s n x y z) {i : ℕ} (hi : i < n) :
    let d := k.digit (x i) (y i) (k.carryIn rounds s i)
    (k.after rounds s n).look (z i) = d.1 ∧ k.carryIn rounds s (i + 1) = d.2.c := by
  intro d
  obtain ⟨hlook, hflags⟩ := h.round hi
  exact ⟨(h.kept i hi).trans hlook, by simp [carryIn, hflags, d]⟩

end Layout

/-! ### Numbers in RAM -/

/-- Rounds on bytes of RAM: the operands are at the addresses `px` and `py`, and the result goes to
`pz`. -/
def ramRounds (px py pz : ℕ → UInt16) (i : ℕ) : Round where
  moves := [.loadPair .hl (py i), .loadAbs (px i)]
  operand := .stored .atHL
  store := .storeAbs (pz i)

section Ram

variable {k s} {px py pz : ℕ → UInt16} {n : ℕ}

theorem moved_ramRounds (i : ℕ) :
    let t := k.moved (ramRounds px py pz) s i
    let m := (k.after (ramRounds px py pz) s i).bus
    t.regs.a = m.read8 (px i) ∧ (ramRounds px py pz i).operand.value t = m.read8 (py i) := by
  intro t m
  refine ⟨rfl, ?_⟩
  change m.read8 (word (highByte (py i)) (lowByte (py i))) = _
  rw [word_highByte_lowByte]

theorem bus_after_succ_ramRounds (i : ℕ) :
    ∃ v, (k.after (ramRounds px py pz) s (i + 1)).bus =
      (k.after (ramRounds px py pz) s i).bus.write8 (pz i) v := by
  rw [after_succ]
  exact ⟨_, rfl⟩

/-- The rounds leave alone the bytes of RAM at which they do not store. -/
theorem read8_after_ramRounds {m : ℕ} (hm : m ≤ n) {a : UInt16} (ha : a ∈ plainRam)
    (hz : ∀ i, m ≤ i → i < n → pz i ∈ plainRam ∧ a ≠ pz i) :
    (k.after (ramRounds px py pz) s n).bus.read8 a =
      (k.after (ramRounds px py pz) s m).bus.read8 a := by
  induction n, hm using Nat.le_induction with
  | base => rfl
  | succ n hn ih =>
    obtain ⟨v, hbus⟩ : ∃ v, (k.after (ramRounds px py pz) s (n + 1)).bus =
        (k.after (ramRounds px py pz) s n).bus.write8 (pz n) v := bus_after_succ_ramRounds n
    obtain ⟨hplain, hne⟩ := hz n hn (Nat.lt_succ_self n)
    rw [hbus, Memory.read8_write8_of_ne (.inr hplain) (.inr ha) hne]
    exact ih fun i hi hlt => hz i hi (Nat.lt_succ_of_lt hlt)

/-- Numbers in RAM can be worked on if no byte of the result overwrites one that is still needed. So
either number may be replaced by the result. -/
theorem layout_in_ram {x y : ℕ → UInt8}
    (hx : ∀ i < n, px i ∈ plainRam ∧ s.bus.read8 (px i) = x i)
    (hy : ∀ i < n, py i ∈ plainRam ∧ s.bus.read8 (py i) = y i) (hz : ∀ i < n, pz i ∈ plainRam)
    (hlater : ∀ j < n, ∀ i < j, px j ≠ pz i ∧ py j ≠ pz i ∧ pz i ≠ pz j) :
    k.Layout (ramRounds px py pz) s n x y fun i => .cell (pz i) := by
  have hstart {a : UInt16} {i : ℕ} (hi : i < n) (ha : a ∈ plainRam) (hne : ∀ j < i, a ≠ pz j) :
      (k.after (ramRounds px py pz) s i).bus.read8 a = s.bus.read8 a :=
    read8_after_ramRounds (Nat.zero_le i) ha fun j _ hj => ⟨hz j (hj.trans hi), hne j hj⟩
  constructor
  · intro i _
    simp [ramRounds, Operation.Moves, Operation.toInstruction]
  · intro i hi
    obtain ⟨hplain, hvalue⟩ := hx i hi
    rw [(moved_ramRounds i).1, ← hvalue]
    exact hstart hi hplain fun j hj => (hlater i hi j hj).1
  · intro i hi
    obtain ⟨hplain, hvalue⟩ := hy i hi
    rw [(moved_ramRounds i).2, ← hvalue]
    exact hstart hi hplain fun j hj => (hlater i hi j hj).2.1
  · intro i _
    rfl
  · intro i hi
    exact .inr (mem_storage_of_mem_plainRam (hz i hi))
  · intro i hi
    exact read8_after_ramRounds hi (hz i hi) fun j hij hj => ⟨hz j hj, (hlater j hj i hij).2.2⟩

end Ram

end LongArithmetic

end Sm83
