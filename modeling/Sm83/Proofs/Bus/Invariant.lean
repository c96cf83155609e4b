import Sm83.Proofs.Bus.Simulation

/-!
# What accesses keep, steps keep

The processor changes its bus by reads and writes only. So a property that every access keeps is
kept by every step, and what only writes to certain addresses can change is the same after every
step that writes to none of them.

That a step makes nothing but accesses need not be shown by looking at the operations again: the
states with the property are a bus of their own, and the processor cannot tell it from the whole
bus.

## Main definitions

* `Bus.Invariant P` — reads and writes keep the property `P`.
* `Bus.Frame W f` — reads, and writes to addresses outside of `W`, do not change the part `f`.

## Main results

* `Bus.Invariant.step` — steps keep what accesses keep.
* `Bus.Frame.effect`, `Bus.Frame.step` — an operation or a step that does not write to `W` does not
  change the part `f`.
-/

namespace Sm83

variable {β : Type u} [Bus β]

/-- A property of the states of a bus that reads and writes keep. -/
structure Bus.Invariant (P : β → Prop) : Prop where
  read {b : β} (a : UInt16) : P b → P (ByteSource.read a b).2
  write {b : β} (a : UInt16) (v : UInt8) : P b → P (Bus.write a v b)

/-- A part of the states of a bus that reads do not change, and of the writes only those to
addresses of `W`. -/
structure Bus.Frame {γ : Sort v} (W : Set UInt16) (f : β → γ) : Prop where
  read (a : UInt16) (b : β) : f (ByteSource.read a b).2 = f b
  write {a : UInt16} (ha : a ∉ W) (v : UInt8) (b : β) : f (Bus.write a v b) = f b

/-! ### Properties -/

namespace Bus.Invariant

variable {P : β → Prop}

/-- The states with the property, as a bus. The withdrawal of a request, which is no access, does
nothing there. -/
@[reducible] def restrict (h : Bus.Invariant P) : Bus {b : β // P b} where
  read a b := ((ByteSource.read a b.1).1, ⟨(ByteSource.read a b.1).2, h.read a b.2⟩)
  write a v b := ⟨Bus.write a v b.1, h.write a v b.2⟩
  pending b := Bus.pending b.1
  acknowledge _ b := b

/-- The processor cannot tell the states with the property from the whole bus. -/
theorem restrict_simulation (h : Bus.Invariant P) :
    @Bus.Simulation _ _ h.restrict _ Set.univ fun (b : {b : β // P b}) (c : β) => b.1 = c := by
  let _ := h.restrict
  refine ⟨?_, ?_, fun _ => ?_, ?_⟩
  · rintro b _ a rfl -
    rfl
  · rintro b _ a rfl -
    rfl
  · rintro rfl -
    rfl
  · rintro b _ rfl
    rfl

/-- Operations keep what accesses keep. -/
theorem effect (h : Bus.Invariant P) {s : Core β} (hs : P s.bus) (op : Operation) :
    P (op.effect s).bus := by
  let _ := h.restrict
  let start : Core {b : β // P b} := ⟨s.regs, ⟨s.bus, hs⟩⟩
  have hrelated : Core.Related (fun (b : {b : β // P b}) (c : β) => b.1 = c) start s := ⟨rfl, rfl⟩
  have hbus : (op.effect start).bus.1 = (op.effect s).bus :=
    (hrelated.effect h.restrict_simulation fun _ _ => trivial).bus
  rw [← hbus]
  exact (op.effect start).bus.2

/-- Steps keep what accesses keep. -/
theorem step (h : Bus.Invariant P) {b : β} (hb : P b) (c : Cpu) : P (c.step b).2.2 := by
  let _ := h.restrict
  let start : {b : β // P b} := ⟨b, hb⟩
  have hbus : (c.step start).2.2.1 = (c.step b).2.2 :=
    (h.restrict_simulation.step (b := start) rfl fun _ _ => trivial).2.2.1
  rw [← hbus]
  exact (c.step start).2.2.2

end Bus.Invariant

/-! ### Parts -/

namespace Bus.Frame

variable {γ : Sort v} {W : Set UInt16} {f : β → γ}

/-- While the journal holds no write to `W`, the part is what it was. -/
theorem journal_invariant (h : Bus.Frame W f) (x : γ) :
    Bus.Invariant fun j : Journal β => (∀ a ∈ W, Access.write a ∉ j.accesses) → f j.bus = x := by
  constructor
  · intro j a hj hnot
    refine (h.read a j.bus).trans (hj fun w hw hmem => hnot w hw ?_)
    exact List.mem_append_left _ hmem
  · intro j a v hj hnot
    have ha : a ∉ W := fun ha => hnot a ha (List.mem_append_right _ (List.mem_singleton_self _))
    refine (h.write ha v j.bus).trans (hj fun w hw hmem => hnot w hw ?_)
    exact List.mem_append_left _ hmem

/-- An operation that does not write to `W` does not change the part. -/
theorem effect (h : Bus.Frame W f) {op : Operation} {s : Core β}
    (hW : ∀ a ∈ W, Access.write a ∉ op.accesses s.regs) : f (op.effect s).bus = f s.bus := by
  have heffect := (h.journal_invariant (f s.bus)).effect (s := s.noted []) (fun _ => rfl) op
  rw [Operation.effect_noted] at heffect
  exact heffect hW

/-- A step that does not write to `W` does not change the part. -/
theorem step (h : Bus.Frame W f) {c : Cpu} {b : β} (hW : ∀ a ∈ W, Access.write a ∉ c.accesses b) :
    f (c.step b).2.2 = f b := by
  have hstep := (h.journal_invariant (f b)).step (b := { bus := b }) (fun _ => rfl) c
  simp only [Cpu.step_journal, List.nil_append] at hstep
  exact hstep hW

end Bus.Frame

end Sm83
