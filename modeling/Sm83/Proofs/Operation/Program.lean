import Sm83.Proofs.Operation.Frame

/-!
# Straight-line programs

Instructions executed one after the other, without a look at the program counter. A list of
encodable operations is executed to its end, and does what its operations do one after the other.

## Main definitions

* `Instruction.executeAll` — the execution of instructions up to the first that fails.
* `Core.run` — what operations do one after the other.

## Main results

* `Instruction.executeAll_toInstruction` — encodable operations are all executed.
* `Core.run_of_invariant`, `Core.flags_run` — what programs keep.
-/

namespace Sm83

variable {β : Type u} [Bus β]

/-- Execute instructions one after the other, up to the first that cannot be executed. -/
def Instruction.executeAll : List Instruction → Core β → Except CpuError Unit × Core β
  | [], s => (.ok (), s)
  | i :: program, s =>
    match i.execute s with
    | (.error e, s) => (.error e, s)
    | (.ok _, s) => executeAll program s

namespace Core

/-- What operations do one after the other. -/
def run (s : Core β) (ops : List Operation) : Core β :=
  ops.foldl (fun s op => op.effect s) s

@[simp] theorem run_nil (s : Core β) : s.run [] = s := rfl

@[simp] theorem run_cons (s : Core β) (op : Operation) (ops : List Operation) :
    s.run (op :: ops) = (op.effect s).run ops := rfl

@[simp] theorem run_append (s : Core β) (ops ops' : List Operation) :
    s.run (ops ++ ops') = (s.run ops).run ops' :=
  List.foldl_append

/-- What accesses keep, programs keep. -/
theorem run_of_invariant {P : β → Prop} (h : Bus.Invariant P) {s : Core β} (hs : P s.bus)
    (ops : List Operation) : P (s.run ops).bus := by
  induction ops generalizing s with
  | nil => exact hs
  | cons op ops ih => exact ih (h.effect hs op)

/-- Operations that do not change flags leave them alone, however many there are. -/
theorem flags_run {ops : List Operation} (h : ∀ op ∈ ops, op.setsFlags = false) (s : Core β) :
    (s.run ops).regs.flags = s.regs.flags := by
  induction ops generalizing s with
  | nil => rfl
  | cons op ops ih =>
    obtain ⟨hop, hops⟩ := List.forall_mem_cons.mp h
    exact (ih hops _).trans ((op.frame_effect s).flags hop)

end Core

/-- Programs do not change the mode. -/
theorem Core.isFlat_run (s : Core Memory) (ops : List Operation) :
    (s.run ops).bus.isFlat = s.bus.isFlat := by
  have hkept : Bus.Invariant fun m : Memory => m.isFlat = s.bus.isFlat :=
    ⟨fun _ hm => hm, fun a v hm => (Memory.isFlat_write8 _ a v).trans hm⟩
  exact run_of_invariant hkept rfl ops

/-- Encodable operations are all executed. -/
theorem Instruction.executeAll_toInstruction {ops : List Operation}
    (h : ∀ op ∈ ops, op.Encodable) (s : Core β) :
    executeAll (ops.map Operation.toInstruction) s = (.ok (), s.run ops) := by
  induction ops generalizing s with
  | nil => rfl
  | cons op ops ih =>
    have hop : op.Encodable := h op List.mem_cons_self
    simp only [List.map_cons, executeAll, Instruction.execute_toInstruction, hop.execute_eq s]
    exact ih (fun op' hop' => h op' (List.mem_cons_of_mem op hop')) (op.effect s)

end Sm83
