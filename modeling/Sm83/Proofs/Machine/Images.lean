import Sm83.Proofs.Machine.Accesses
import Sm83.Proofs.Machine.Host
import Sm83.Proofs.Timer.Elapse

/-!
# The images of a machine

The mode of a machine is chosen when it is made, and its images come from the host alone: no step,
no write and no reset changes them. So of each kind a machine has the image that it accepted last.

## Main definitions

* `Setup`, `Memory.setup` — the mode and the images.
* `Machine.last?` — the last of what actions bring about.
* `Machine.acceptedRom?`, `Machine.acceptedBootRom?` — the images that actions load.

## Main results

* `Machine.setup_step` — steps change neither the mode nor the images.
* `Machine.performAll_eq_elim_last?` — a part of the machine that actions replace is as the last of
  them left it.
* `Machine.cartridge_performAll`, `Machine.boot_performAll`, `Machine.isFlat_performAll` — the
  images and the mode after some actions.
-/

namespace Sm83

/-- What a machine is set up with: its mode and its images. -/
structure Setup where
  isFlat : Bool
  cartridge : Cartridge
  boot : BootImage
  deriving DecidableEq

namespace Memory

/-- What the memory is set up with. -/
def setup (m : Memory) : Setup :=
  ⟨m.isFlat, m.cartridge, m.boot⟩

theorem setup_write8 (m : Memory) (a : UInt16) (v : UInt8) : (m.write8 a v).setup = m.setup := by
  cases hmode : m.isFlat with
  | true =>
    obtain ⟨ram, hram⟩ := Option.isSome_iff_exists.mp hmode
    simp only [setup, isFlat, write8, hram, Option.isSome_some]
  | false =>
    obtain ⟨_, _, _, _, _, _, hwrite⟩ := write8_eq hmode a v
    rw [hwrite]
    rfl

theorem setup_frame : Bus.Frame ∅ setup where
  read _ _ := rfl
  write _ v m := m.setup_write8 _ v

theorem setup_elapse (m : Memory) (n : Nat) : (m.elapse n).setup = m.setup := by
  rw [elapse_eq]
  rfl

end Memory

namespace Machine

/-- Steps change neither the mode nor the images. -/
theorem setup_step (m : Machine) : m.step.2.memory.setup = m.memory.setup :=
  Memory.setup_frame.memory_step (fun _ _ => rfl) Memory.setup_elapse m

/-! ### The last of some actions -/

/-- The last of what some actions bring about, where `f` is what a single action does. -/
def last? (f : Machine → Action → Option α) (m : Machine) : List Action → Option α
  | [] => none
  | a :: actions => (last? f (m.perform a) actions).or (f m a)

/-- If every action makes of a part of the machine what it brings about, and changes nothing of it
otherwise, then the part is decided by the last that was brought about. -/
theorem performAll_eq_elim_last? {f : Machine → Action → Option α} (part : Machine → γ) {g : α → γ}
    (hstep : ∀ m a, part (m.perform a) = (f m a).elim (part m) g) (m : Machine)
    (actions : List Action) :
    part (m.performAll actions) = (m.last? f actions).elim (part m) g := by
  induction actions generalizing m with
  | nil => rfl
  | cons a actions ih =>
    have hrest : part (m.performAll (a :: actions)) =
        ((m.perform a).last? f actions).elim (part (m.perform a)) g := ih (m.perform a)
    rw [hrest, last?]
    cases (m.perform a).last? f actions with
    | none => exact hstep m a
    | some x => rfl

/-! ### The images -/

/-- The image of a cartridge that an action loads; `none` if it does not, or is refused. -/
def acceptedRom? (m : Machine) : Action → Option (Array UInt8)
  | .loadRom bytes => if (m.loadRom bytes).isOk then some bytes else none
  | _ => none

/-- The image of a boot ROM that an action loads; `none` if it does not, or is refused. -/
def acceptedBootRom? (m : Machine) : Action → Option (Array UInt8)
  | .loadBootRom bytes => if (m.loadBootRom bytes).isOk then some bytes else none
  | _ => none

/-- Whether an action is the load of an image. -/
def Action.isLoad : Action → Bool
  | loadRom _ | loadBootRom _ => true
  | step | reset | write8 _ _ | write16 _ _ => false

/-- What loads no image changes neither the mode nor the images. -/
theorem setup_perform (m : Machine) {a : Action} (ha : a.isLoad = false) :
    (m.perform a).memory.setup = m.memory.setup := by
  cases a with
  | loadRom bytes | loadBootRom bytes => cases ha
  | step => exact m.setup_step
  | reset =>
    simp only [perform, reset, Memory.setup, Memory.isFlat, Memory.reset, Option.isSome_map]
  | write8 addr v => exact m.memory.setup_write8 addr v
  | write16 addr w =>
    calc ((m.memory.write8 addr (lowByte w)).write8 (addr + 1) (highByte w)).setup
      _ = (m.memory.write8 addr (lowByte w)).setup := Memory.setup_write8 _ _ _
      _ = m.memory.setup := Memory.setup_write8 _ _ _

theorem cartridge_perform (m : Machine) (a : Action) :
    Except.ok (m.perform a).memory.cartridge =
      (m.acceptedRom? a).elim (.ok m.memory.cartridge) cartridgeOf? := by
  cases a with
  | loadRom bytes =>
    rw [perform, acceptedRom?, loadRom, Memory.loadRom]
    cases himage : cartridgeOf? bytes with
    | error e => rfl
    | ok cartridge => exact himage.symm
  | loadBootRom bytes =>
    rcases m.perform_loadBootRom bytes with h | ⟨image, h⟩ <;> rw [h] <;> rfl
  | reset => rfl
  | step | write8 | write16 =>
    exact congrArg Except.ok (congrArg Setup.cartridge (m.setup_perform rfl))

theorem boot_perform (m : Machine) (a : Action) :
    Except.ok (m.perform a).memory.boot =
      (m.acceptedBootRom? a).elim (.ok m.memory.boot) bootImageOf? := by
  cases a with
  | loadBootRom bytes =>
    rw [perform, acceptedBootRom?, loadBootRom, Memory.loadBootRom]
    cases himage : bootImageOf? bytes with
    | error e => rfl
    | ok image => exact himage.symm
  | loadRom bytes =>
    rcases m.perform_loadRom bytes with h | ⟨image, h⟩ <;> rw [h] <;> rfl
  | reset => rfl
  | step | write8 | write16 =>
    exact congrArg Except.ok (congrArg Setup.boot (m.setup_perform rfl))

theorem isFlat_perform (m : Machine) (a : Action) :
    (m.perform a).memory.isFlat = m.memory.isFlat := by
  cases a with
  | loadRom bytes =>
    rcases m.perform_loadRom bytes with h | ⟨image, h⟩
    · rw [h]
    · rw [h]
      exact Option.isSome_map
  | loadBootRom bytes =>
    rcases m.perform_loadBootRom bytes with h | ⟨image, h⟩ <;> rw [h]
    rfl
  | step | reset | write8 | write16 => exact congrArg Setup.isFlat (m.setup_perform rfl)

/-- A machine has the cartridge that it accepted last, or the one that it had. -/
theorem cartridge_performAll (m : Machine) (actions : List Action) :
    Except.ok (m.performAll actions).memory.cartridge =
      (m.last? acceptedRom? actions).elim (.ok m.memory.cartridge) cartridgeOf? :=
  performAll_eq_elim_last? (fun m => Except.ok m.memory.cartridge) cartridge_perform m actions

/-- A machine has the boot ROM that it accepted last, or the one that it had. -/
theorem boot_performAll (m : Machine) (actions : List Action) :
    Except.ok (m.performAll actions).memory.boot =
      (m.last? acceptedBootRom? actions).elim (.ok m.memory.boot) bootImageOf? :=
  performAll_eq_elim_last? (fun m => Except.ok m.memory.boot) boot_perform m actions

theorem isFlat_performAll (m : Machine) (actions : List Action) :
    (m.performAll actions).memory.isFlat = m.memory.isFlat :=
  performAll_induction (P := fun m' => m'.memory.isFlat = m.memory.isFlat) rfl
    fun m' h a _ => (m'.isFlat_perform a).trans h

end Machine

end Sm83
