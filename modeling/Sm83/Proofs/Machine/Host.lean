import Sm83.Machine

/-!
# What the host does with a machine

The host loads images, lets the machine take steps, resets it, and writes to its memory from
outside. An action always leaves a machine: an image that is refused leaves the one before, and so
does a step, as far as it came, when it fails. A property that a new machine has, and that every
action of some kind keeps, holds of all machines that such actions lead to.

## Main definitions

* `Machine.Action`, `Machine.perform`, `Machine.performAll` — actions of the host.
* `Machine.IsNew` — a machine before the first action.

## Main results

* `Machine.perform_loadRom`, `Machine.perform_loadBootRom`, `Machine.perform_reset` — what the
  actions that are no steps and no writes leave.
* `Machine.performAll_induction` — what every action keeps, sequences of actions keep.
-/

namespace Sm83

namespace Machine

/-- What the host can do with a machine. -/
inductive Action where
  /-- Load the image of a cartridge. -/
  | loadRom (bytes : Array UInt8)
  /-- Load and map the image of a boot ROM. -/
  | loadBootRom (bytes : Array UInt8)
  /-- Let the machine take a step. -/
  | step
  /-- Return to the initial state. -/
  | reset
  /-- Write a byte of memory. -/
  | write8 (addr : UInt16) (v : UInt8)
  /-- Write a word of memory. -/
  | write16 (addr w : UInt16)
  deriving DecidableEq, Repr

/-- Whether the host writes to memory itself. -/
def Action.isWrite : Action → Bool
  | write8 _ _ | write16 _ _ => true
  | loadRom _ | loadBootRom _ | step | reset => false

/-- The machine after an action. A refused image changes nothing. -/
def perform (m : Machine) : Action → Machine
  | .loadRom bytes => (m.loadRom bytes).toOption.getD m
  | .loadBootRom bytes => (m.loadBootRom bytes).toOption.getD m
  | .step => m.step.2
  | .reset => m.reset
  | .write8 addr v => { m with memory := m.memory.write8 addr v }
  | .write16 addr w => { m with memory := m.memory.write16 addr w }

/-- The machine after some actions, the earliest first. -/
def performAll (m : Machine) (actions : List Action) : Machine :=
  actions.foldl perform m

/-- A machine on which nothing was done yet, in either mode. -/
def IsNew (m : Machine) : Prop :=
  m = powerOn ∨ m = emptyFlat

variable {m : Machine}

/-! ### Single actions -/

theorem perform_loadRom (m : Machine) (bytes : Array UInt8) :
    m.perform (.loadRom bytes) = m ∨
      ∃ cartridge, m.perform (.loadRom bytes) = { m with memory := m.memory.insert cartridge } := by
  cases himage : cartridgeOf? bytes with
  | error e =>
    refine .inl ?_
    rw [perform, loadRom, Memory.loadRom, himage]
    rfl
  | ok cartridge =>
    refine .inr ⟨cartridge, ?_⟩
    rw [perform, loadRom, Memory.loadRom, himage]
    rfl

theorem perform_loadBootRom (m : Machine) (bytes : Array UInt8) :
    m.perform (.loadBootRom bytes) = m ∨
      ∃ image, m.perform (.loadBootRom bytes) =
        ⟨{}, { m.memory with boot := image, bootMapped := true }⟩ := by
  cases himage : bootImageOf? bytes with
  | error e =>
    refine .inl ?_
    rw [perform, loadBootRom, Memory.loadBootRom, himage]
    rfl
  | ok image =>
    refine .inr ⟨image, ?_⟩
    rw [perform, loadBootRom, Memory.loadBootRom, himage]
    rfl

/-- After a reset the processor is in one of its two initial states. -/
theorem perform_reset (m : Machine) :
    m.perform .reset = ⟨{}, m.memory.reset⟩ ∨ m.perform .reset = ⟨.postBoot, m.memory.reset⟩ := by
  unfold perform reset
  dsimp only
  split
  · exact .inl rfl
  · exact .inr rfl

/-! ### Sequences of actions -/

/-- What every one of some actions keeps, all of them together keep. -/
theorem performAll_induction {P : Machine → Prop} {actions : List Action} (h : P m)
    (hstep : ∀ m, P m → ∀ a ∈ actions, P (m.perform a)) : P (m.performAll actions) :=
  List.foldlRecOn actions perform h hstep

end Machine

end Sm83
