import Sm83.Proofs.Operation.Frame
import Sm83.Proofs.Stack.Words

/-!
# Nested uses of the stack

A program pushes words and takes them back in the reverse order: pairs of registers, and the program
counter at calls. A *level* is one such use of the stack, with what happens to the registers before
its word is pushed and before it is taken back; a program that uses the stack to some depth goes
down a list of levels and then up again.

Going down a level changes the two cells below the stack pointer, and going up changes no cell. So
the word of a level is there when the levels below it have been left again, provided the cells of
the levels are different bytes of memory.

## Main definitions

* `StackUse` — what is pushed, and where it is taken back to.
* `Interlude`, `Level` — a use of the stack and what happens to the registers around it.
* `Turn.executeAll` — the execution of instructions and interludes.
* `Core.descend`, `Core.ascend` — going down levels and up again.
* `Memory.HasRoom` — the cells below the stack pointer are different bytes of memory.

## Main results

* `Turn.executeAll_entering`, `Turn.executeAll_leaving` — all instructions are executed.
* `Core.regs_sp_descend`, `Core.agreeOutside_descend`, `Core.regs_sp_ascend`, `Core.bus_ascend` —
  stack pointer and memory on the way down and up.
* `Core.read16_descend_enter` — the word of a level is there when the levels below it are left.
* `stack_is_last_in_first_out` — all of this together.
-/

namespace Sm83

/-! ### Uses of the stack -/

/-- What is pushed, and where it is taken back to. -/
inductive StackUse where
  /-- `PUSH` of a pair, and `POP` into the same or another one. -/
  | pair (source target : StackPair)
  /-- `CALL` and `RET`. -/
  | call (target : UInt16)
  /-- `RST` and `RET`. -/
  | restart (vector : UInt8)

namespace StackUse

/-- The operation that pushes the word. -/
def enter : StackUse → Operation
  | pair source _ => .push source
  | call target => .call none target
  | restart v => .rst v

/-- The operation that takes the word back. -/
def leave : StackUse → Operation
  | pair _ target => .pop target
  | call _ | restart _ => .ret none

/-- The word that is pushed. -/
def source (u : StackUse) (r : RegisterFile) : UInt16 :=
  match u with
  | pair source _ => r.stackPair source
  | call _ | restart _ => r.pc

/-- What is found, when the word has been taken back, in the registers that it is taken to. -/
def target (u : StackUse) (r : RegisterFile) : UInt16 :=
  match u with
  | pair _ target => r.stackPair target
  | call _ | restart _ => r.pc

/-- The registers after a word has been taken to them. -/
def deliver (u : StackUse) (w : UInt16) (r : RegisterFile) : RegisterFile :=
  match u with
  | pair _ target => r.setStackPair target w
  | call _ | restart _ => { r with pc := w }

/-- What is kept of a word that is taken back: all of it, but of `F` the flags only. -/
def kept (u : StackUse) (w : UInt16) : UInt16 :=
  match u with
  | pair _ .af => word (highByte w) (lowByte w &&& 0xF0)
  | _ => w

/-- A pair that is taken back into its own registers is what it was. -/
theorem kept_source (p : StackPair) (r : RegisterFile) :
    (pair p p).kept ((pair p p).source r) = (pair p p).source r := by
  cases p with
  | af =>
    have hflags : r.f &&& 0xF0 = r.f := by
      rw [RegisterFile.f, ← Flags.toByte_ofByte, Flags.ofByte_toByte]
    simp only [kept, source, RegisterFile.stackPair, RegisterFile.af, highByte_word, lowByte_word,
      hflags]
  | bc | de | hl => rfl

variable (u : StackUse) (w : UInt16) (r : RegisterFile)

theorem sp_deliver : (u.deliver w r).sp = r.sp := by
  cases u with
  | pair _ target => cases target <;> rfl
  | call _ | restart _ => rfl

theorem target_deliver : u.target (u.deliver w r) = u.kept w := by
  cases u with
  | pair _ target =>
    cases target with
    | af => exact congrArg (word (highByte w)) (Flags.toByte_ofByte (lowByte w))
    | bc | de | hl => exact word_highByte_lowByte w
  | call _ | restart _ => rfl

variable (s : Core Memory)

theorem bus_effect_enter : (u.enter.effect s).bus = (s.push (u.source s.regs)).bus := by
  cases u <;> rfl

theorem regs_sp_effect_enter : (u.enter.effect s).regs.sp = s.regs.sp - 2 := by
  rw [← sub_one_sub_one]
  cases u <;> rfl

/-- The word at the stack pointer is taken back, and memory is left alone. -/
theorem effect_leave :
    u.leave.effect s =
      ⟨u.deliver (s.bus.read16 s.regs.sp) { s.regs with sp := s.regs.sp + 2 }, s.bus⟩ := by
  cases u with
  | pair _ target => simp only [leave, Operation.effect, Core.pop_eq, Core.modifyRegs, deliver]
  | call _ | restart _ =>
    simp only [leave, Operation.effect, Flags.allow, Core.ret_eq, deliver, if_true]

end StackUse

/-! ### Executions with interludes -/

/-- A change of the registers that keeps the stack pointer, as a fetch or a computation makes it. -/
structure Interlude where
  change : RegisterFile → RegisterFile
  sp_change : ∀ r, (change r).sp = r.sp

/-- Nothing happens. -/
def Interlude.none : Interlude where
  change r := r
  sp_change _ := rfl

/-- An instruction, and what happens to the registers before it. -/
structure Turn where
  interlude : Interlude
  instruction : Instruction

variable {β : Type u} [Bus β]

/-- Execute instructions one after the other, up to the first that cannot be executed. -/
def Turn.executeAll : List Turn → Core β → Except CpuError Unit × Core β
  | [], s => (.ok (), s)
  | t :: turns, s =>
    match t.instruction.execute (s.modifyRegs t.interlude.change) with
    | (.error e, s) => (.error e, s)
    | (.ok _, s) => executeAll turns s

/-- A use of the stack, with what happens before the word is pushed and before it is taken back. -/
structure Level where
  use : StackUse
  entry : Interlude := .none
  exit : Interlude := .none

namespace Level

/-- The way down. -/
def entering (l : Level) : Turn :=
  ⟨l.entry, l.use.enter.toInstruction⟩

/-- The way up. -/
def leaving (l : Level) : Turn :=
  ⟨l.exit, l.use.leave.toInstruction⟩

end Level

namespace Core

/-- The state after the way down a level. -/
def enter (l : Level) (s : Core β) : Core β :=
  l.use.enter.effect (s.modifyRegs l.entry.change)

/-- The state after the way up a level. -/
def leave (l : Level) (s : Core β) : Core β :=
  l.use.leave.effect (s.modifyRegs l.exit.change)

/-- The state after the way down levels, the first one first. -/
def descend (levels : List Level) (s : Core β) : Core β :=
  levels.foldl (fun s l => s.enter l) s

/-- The state after the way up levels, the last one first. -/
def ascend (levels : List Level) (s : Core β) : Core β :=
  levels.foldr (fun l s => s.leave l) s

@[simp] theorem descend_cons (l : Level) (levels : List Level) (s : Core β) :
    descend (l :: levels) s = descend levels (enter l s) := rfl

@[simp] theorem ascend_cons (l : Level) (levels : List Level) (s : Core β) :
    ascend (l :: levels) s = leave l (ascend levels s) := rfl

theorem descend_append (levels levels' : List Level) (s : Core β) :
    descend (levels ++ levels') s = descend levels' (descend levels s) :=
  List.foldl_append

end Core

namespace Turn

theorem executeAll_cons {op : Operation} (h : ∀ b, op ≠ .invalid b) (i : Interlude)
    (turns : List Turn) (s : Core β) :
    executeAll (⟨i, op.toInstruction⟩ :: turns) s =
      executeAll turns (op.effect (s.modifyRegs i.change)) := by
  simp only [executeAll, Instruction.execute_toInstruction, Operation.execute_eq_of_ne_invalid h]

theorem executeAll_append {turns turns' : List Turn} {s s' : Core β}
    (h : executeAll turns s = (.ok (), s')) :
    executeAll (turns ++ turns') s = executeAll turns' s' := by
  induction turns generalizing s with
  | nil =>
    obtain rfl : s = s' := congrArg Prod.snd h
    rfl
  | cons t turns ih =>
    rw [executeAll] at h
    rw [List.cons_append, executeAll]
    split at h
    · cases h
    · exact ih h

/-- On the way down all instructions are executed. -/
theorem executeAll_entering (levels : List Level) (s : Core β) :
    executeAll (levels.map Level.entering) s = (.ok (), s.descend levels) := by
  induction levels generalizing s with
  | nil => rfl
  | cons l levels ih =>
    have hvalid : ∀ b, l.use.enter ≠ .invalid b := by cases l.use <;> nofun
    rw [List.map_cons, Level.entering, executeAll_cons hvalid]
    exact ih (s.enter l)

/-- On the way up all instructions are executed. -/
theorem executeAll_leaving (levels : List Level) (s : Core β) :
    executeAll (levels.reverse.map Level.leaving) s = (.ok (), s.ascend levels) := by
  induction levels with
  | nil => rfl
  | cons l levels ih =>
    have hvalid : ∀ b, l.use.leave ≠ .invalid b := by cases l.use <;> nofun
    rw [List.reverse_cons, List.map_append, executeAll_append ih, List.map_singleton, Level.leaving,
      executeAll_cons hvalid]
    rfl

end Turn

/-! ### Stack pointer and memory on the way down and up -/

/-- The cells below a lower stack pointer are among those below the higher one. -/
theorem below_subset (sp : UInt16) {j n k : Nat} (h : j + n ≤ k) :
    below (sp - .ofNat (2 * j)) n ⊆ below sp k := by
  intro a ha
  have hbound := a.toNat_lt
  have hsp := sp.toNat_lt
  simp only [mem_below_iff, UInt16.toNat_sub, UInt16.reduceToNat, UInt16.toNat_ofNat'] at ha ⊢
  omega

theorem below_mono (sp : UInt16) {n k : Nat} (h : n ≤ k) : below sp n ⊆ below sp k :=
  fun _ ha => ha.trans_le (Nat.mul_le_mul_left 2 h)

/-- The cells of a word are none of those below it, unless these go around the address space. -/
theorem ne_of_mem_below {sp a b : UInt16} {n : Nat} (h : 2 * (n + 1) ≤ 0x10000)
    (ha : a ∈ below sp 1) (hb : b ∈ below (sp - 2) n) : a ≠ b := by
  have hbound := a.toNat_lt
  have hsp := sp.toNat_lt
  rintro rfl
  simp only [mem_below_iff, UInt16.toNat_sub, UInt16.reduceToNat] at ha hb
  omega

theorem ofNat_two_mul_succ (n : Nat) : UInt16.ofNat (2 * (n + 1)) = .ofNat (2 * n) + 2 :=
  UInt16.ofNat_add (2 * n) 2

namespace Core

variable (s : Core Memory)

theorem regs_sp_enter (l : Level) : (s.enter l).regs.sp = s.regs.sp - 2 :=
  (l.use.regs_sp_effect_enter _).trans (congrArg (· - 2) (l.entry.sp_change s.regs))

/-- The way down a level is seen within the reach of its two cells only. -/
theorem agreeOutside_enter (l : Level) :
    Memory.AgreeOutside (below s.regs.sp 1) s.bus (s.enter l).bus := by
  have hpush := (s.modifyRegs l.entry.change).agreeOutside_push
    (l.use.source (l.entry.change s.regs))
  have hsp : (s.modifyRegs l.entry.change).regs.sp = s.regs.sp := l.entry.sp_change s.regs
  rw [hsp] at hpush
  rw [enter, StackUse.bus_effect_enter]
  exact hpush

theorem bus_leave (l : Level) : (s.leave l).bus = s.bus := by
  rw [leave, StackUse.effect_leave]
  rfl

theorem regs_sp_leave (l : Level) : (s.leave l).regs.sp = s.regs.sp + 2 := by
  have hsp : (s.modifyRegs l.exit.change).regs.sp = s.regs.sp := l.exit.sp_change s.regs
  rw [leave, StackUse.effect_leave, StackUse.sp_deliver, hsp]

/-- The way up a level takes the word at the stack pointer back. -/
theorem target_leave (l : Level) :
    l.use.target (s.leave l).regs = l.use.kept (s.bus.read16 s.regs.sp) := by
  have hsp : (s.modifyRegs l.exit.change).regs.sp = s.regs.sp := l.exit.sp_change s.regs
  rw [leave, StackUse.effect_leave, StackUse.target_deliver, hsp]
  rfl

theorem regs_sp_descend (levels : List Level) :
    (s.descend levels).regs.sp = s.regs.sp - .ofNat (2 * levels.length) := by
  induction levels generalizing s with
  | nil => exact (UInt16.sub_zero _).symm
  | cons l levels ih =>
    rw [descend_cons, ih, regs_sp_enter, List.length_cons, ofNat_two_mul_succ]
    grind

/-- The way down is seen within the reach of the cells below the stack pointer only. -/
theorem agreeOutside_descend (levels : List Level) :
    Memory.AgreeOutside (below s.regs.sp levels.length) s.bus (s.descend levels).bus := by
  induction levels generalizing s with
  | nil => exact .refl _ _
  | cons l levels ih =>
    have hfirst : below s.regs.sp 1 ⊆ below s.regs.sp (levels.length + 1) :=
      below_mono s.regs.sp (Nat.le_add_left 1 levels.length)
    have hrest : below (s.enter l).regs.sp levels.length ⊆ below s.regs.sp (levels.length + 1) := by
      rw [regs_sp_enter]
      exact below_subset s.regs.sp (j := 1) (Nat.add_comm _ _).le
    exact ((s.agreeOutside_enter l).mono hfirst).trans ((ih (s.enter l)).mono hrest)

theorem bus_ascend (levels : List Level) : (s.ascend levels).bus = s.bus := by
  induction levels with
  | nil => rfl
  | cons l levels ih => exact (bus_leave _ l).trans ih

theorem regs_sp_ascend (levels : List Level) :
    (s.ascend levels).regs.sp = s.regs.sp + .ofNat (2 * levels.length) := by
  induction levels with
  | nil => exact (UInt16.add_zero _).symm
  | cons l levels ih =>
    rw [ascend_cons, regs_sp_leave, ih, List.length_cons, ofNat_two_mul_succ]
    grind

/-- The way down and up again ends at the same stack pointer. -/
theorem regs_sp_ascend_descend (levels : List Level) :
    ((s.descend levels).ascend levels).regs.sp = s.regs.sp := by
  rw [regs_sp_ascend, regs_sp_descend]
  exact UInt16.sub_add_cancel _ _

end Core

/-! ### The words of the levels -/

/-- Whether there is room for words below an address: their cells are different bytes of memory. In
flat mode there are as many as there are cells; in the usual mode the cells are those of plain
RAM. -/
def Memory.HasRoom (m : Memory) (sp : UInt16) (n : Nat) : Prop :=
  if m.isFlat then 2 * n ≤ 0x10000 else below sp n ⊆ plainRam

namespace Memory.HasRoom

variable {m : Memory} {sp : UInt16} {n : Nat}

theorem isPlain (h : m.HasRoom sp n) {a : UInt16} (ha : a ∈ below sp n) :
    (BytePlace.cell a).IsPlain m := by
  unfold HasRoom at h
  split_ifs at h with hmode
  · exact .inl hmode
  · exact .inr (h ha)

/-- There is room for no more words than the address space has. -/
theorem two_mul_le (h : m.HasRoom sp n) : 2 * n ≤ 0x10000 := by
  unfold HasRoom at h
  split_ifs at h with hmode
  · exact h
  · by_contra hmany
    have hzero : (0 : UInt16) ∈ plainRam := by
      refine h (mem_below_iff.mpr ?_)
      have hbound := (sp - 1 - 0).toNat_lt
      omega
    exact absurd hzero (by decide)

/-- Below some words there is room for the others. -/
theorem below_words {m' : Memory} {j : Nat} (h : m.HasRoom sp (j + n))
    (hmode : m'.isFlat = m.isFlat) : m'.HasRoom (sp - .ofNat (2 * j)) n := by
  unfold HasRoom at h ⊢
  rw [hmode]
  split_ifs at h ⊢
  · omega
  · exact (below_subset sp (Nat.le_refl _)).trans h

end Memory.HasRoom

theorem Memory.notMem_reach_of_isPlain {m : Memory} {a b : UInt16}
    (ha : (BytePlace.cell a).IsPlain m) (hb : (BytePlace.cell b).IsPlain m) (hne : a ≠ b) :
    a ∉ m.reach b := by
  rintro (heq | ⟨hmode, hfoot⟩)
  · exact hne heq
  · exact not_mem_footprint_of_mem_plainRam (hb.resolve_left (by simp [hmode]))
      (ha.resolve_left (by simp [hmode])) hfoot

namespace Core

/-- The word of a level is there when the levels below it have been entered, too. -/
theorem read16_descend_enter {s : Core Memory} {l : Level} {levels : List Level}
    (h : s.bus.HasRoom s.regs.sp (levels.length + 1)) :
    ((s.enter l).descend levels).bus.read16 (s.regs.sp - 2) =
      l.use.source (l.entry.change s.regs) := by
  have hhigh : s.regs.sp - 1 ∈ below s.regs.sp 1 := below_one s.regs.sp ▸ .inl rfl
  have hlow : s.regs.sp - 2 ∈ below s.regs.sp 1 := below_one s.regs.sp ▸ .inr rfl
  have hown {a : UInt16} (ha : a ∈ below s.regs.sp 1) : (BytePlace.cell a).IsPlain s.bus :=
    h.isPlain (below_mono s.regs.sp (Nat.le_add_left 1 levels.length) ha)
  -- the levels below have cells of their own, so they leave those of the word alone
  have hkept {a : UInt16} (ha : a ∈ below s.regs.sp 1) :
      ((s.enter l).descend levels).bus.read8 a = (s.enter l).bus.read8 a := by
    refine ((s.enter l).agreeOutside_descend levels).read8_eq a fun b hb => ?_
    rw [regs_sp_enter] at hb
    have hbelow : b ∈ below s.regs.sp (levels.length + 1) :=
      below_subset s.regs.sp (j := 1) (Nat.add_comm _ _).le hb
    rw [Memory.reach_congr (s.agreeOutside_enter l).isFlat_eq]
    exact Memory.notMem_reach_of_isPlain (hown ha) (h.isPlain hbelow)
      (ne_of_mem_below h.two_mul_le ha hb)
  have hpushed := read16_push (s.modifyRegs l.entry.change)
    (l.use.source (l.entry.change s.regs))
  have hsame : (s.modifyRegs l.entry.change).regs.sp = s.regs.sp := l.entry.sp_change s.regs
  rw [hsame] at hpushed
  rw [Memory.read16_sub_two, hkept hhigh, hkept hlow, ← Memory.read16_sub_two, enter,
    StackUse.bus_effect_enter]
  exact hpushed (hown hhigh).holds (hown hlow).holds

end Core

/-- **The stack is last in, first out, to any depth.** Let a program enter levels, that is, execute
`PUSH`, `CALL` and `RST`, with room for their words, and then leave them in the reverse order by
`POP` and `RET`, with interludes that keep the stack pointer. All instructions are executed. Let the
levels be some outer ones and then some inner ones. When the outer ones have been entered, and also
when all have been entered and the inner ones left again, the stack pointer is two below its initial
value for each outer level, modulo `2 ^ 16`, and the bytes out of reach of the cells of the levels
are as they were initially. The first of the inner levels, which is left last, is left with what it
was entered with: the word that was pushed is found in the pair that is popped, as far as `AF` can
hold it, or in the program counter. A pair that is popped to where it came from is what it was. -/
theorem stack_is_last_in_first_out {s : Core Memory} {levels : List Level}
    (hroom : s.bus.HasRoom s.regs.sp levels.length) {outer inner : List Level}
    (hlevels : outer ++ inner = levels) :
    ∃ down up : Core Memory,
      Turn.executeAll (outer.map Level.entering) s = (.ok (), down) ∧
      Turn.executeAll (levels.map Level.entering ++ inner.reverse.map Level.leaving) s =
        (.ok (), up) ∧
      down.regs.sp = s.regs.sp - .ofNat (2 * outer.length) ∧ up.regs.sp = down.regs.sp ∧
      (∀ a, (∀ b ∈ below s.regs.sp levels.length, a ∉ s.bus.reach b) →
        down.bus.read8 a = s.bus.read8 a ∧ up.bus.read8 a = s.bus.read8 a) ∧
      ∀ l ∈ inner.head?,
        l.use.target up.regs = l.use.kept (l.use.source (l.entry.change down.regs)) ∧
        ∀ p, l.use = .pair p p → up.regs.stackPair p = (l.entry.change down.regs).stackPair p := by
  subst hlevels
  rw [List.length_append] at hroom ⊢
  have hup :
      Turn.executeAll ((outer ++ inner).map Level.entering ++ inner.reverse.map Level.leaving) s =
        (.ok (), ((s.descend outer).descend inner).ascend inner) := by
    rw [Turn.executeAll_append (Turn.executeAll_entering (outer ++ inner) s),
      Turn.executeAll_leaving, Core.descend_append]
  have houter := s.agreeOutside_descend outer
  have hall := s.agreeOutside_descend (outer ++ inner)
  rw [List.length_append, Core.descend_append] at hall
  have hmono : below s.regs.sp outer.length ⊆ below s.regs.sp (outer.length + inner.length) :=
    below_mono s.regs.sp (Nat.le_add_right outer.length inner.length)
  refine ⟨s.descend outer, _, Turn.executeAll_entering outer s, hup, s.regs_sp_descend outer,
    Core.regs_sp_ascend_descend _ inner, fun a ha => ⟨(houter.mono hmono).read8_eq a ha, ?_⟩, ?_⟩
  · rw [Core.bus_ascend]
    exact hall.read8_eq a ha
  · rintro l hl
    obtain ⟨inner, rfl⟩ := List.head?_eq_some_iff.mp hl
    have hroom' := hroom.below_words houter.isFlat_eq
    rw [← s.regs_sp_descend] at hroom'
    have hword := Core.target_leave (((s.descend outer).descend (l :: inner)).ascend inner) l
    rw [Core.bus_ascend, Core.descend_cons, Core.regs_sp_ascend_descend, Core.regs_sp_enter,
      Core.read16_descend_enter hroom'] at hword
    refine ⟨hword, fun p hp => ?_⟩
    rw [hp, StackUse.kept_source] at hword
    exact hword

/-- In flat mode, with a stack that wraps around at the lowest address: `AF` is pushed, a subroutine
and a restart vector are called, and after both returns `AF` and the stack pointer are what they
were at power-on. -/
theorem nested_calls_wrap_around :
    let s : Core Memory := ⟨{ RegisterFile.postBoot with sp := 3 }, .emptyFlat⟩
    let levels : List Level := [{ use := .pair .af .af }, { use := .call 0x1234 },
      { use := .restart 0x38 }]
    s.bus.HasRoom s.regs.sp levels.length ∧ [] ++ levels = levels ∧
      ∃ up : Core Memory,
        Turn.executeAll (levels.map Level.entering ++ levels.reverse.map Level.leaving) s =
          (.ok (), up) ∧
        up.regs.sp = 3 ∧ up.regs.af = 0x01B0 ∧ up.bus.read8 3 = 0 := by
  intro s levels
  have hroom : s.bus.HasRoom s.regs.sp levels.length := by
    have hflat : s.bus.isFlat = true := rfl
    rw [Memory.HasRoom, if_pos hflat]
    decide
  obtain ⟨down, up, hdown, hup, hsp, hback, hbytes, hword⟩ :=
    stack_is_last_in_first_out hroom (List.nil_append levels)
  obtain rfl : s = down := congrArg Prod.snd hdown
  refine ⟨hroom, rfl, up, hup, hback, ((hword _ rfl).2 .af rfl).trans (by decide), ?_⟩
  have hbyte : s.bus.read8 3 = 0 := by
    simp [s, Memory.emptyFlat, Memory.read8]
  refine (hbytes 3 fun b hb hreach => ?_).2.trans hbyte
  rcases hreach with rfl | ⟨hmode, -⟩
  · exact absurd hb (by decide)
  · cases hmode

end Sm83
