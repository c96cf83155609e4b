import Sm83.Proofs.Machine.Images

/-!
# Reset

A reset keeps the mode and the images of a machine and forgets everything else: what it leaves is
the initial machine of that setup. A new machine is the initial one without images, and the load of
an image leads from one initial machine to another. So a machine is reset to what a new one becomes
by loading the images that were accepted last, in either order.

## Main definitions

* `Setup.initial` — the initial machine of a mode and images.
* `Machine.loadRom?`, `Machine.loadBootRom?` — the load of an image, if there is one.

## Main results

* `Machine.reset_eq`, `Machine.IsNew.eq_initial` — reset machines and new ones are initial.
* `Setup.loadRom?_initial`, `Setup.loadBootRom?_initial` — loads on initial machines.
* `reset_eq_new_with_last_images` — a reset machine is a new one with the images that were accepted
  last.
-/

namespace Sm83

/-! ### Initial machines -/

/-- The initial machine of a mode and images: the boot ROM is mapped if there is one, and execution
starts there, as it does in flat mode. -/
def Setup.initial (s : Setup) : Machine where
  cpu := if !s.boot.isEmpty || s.isFlat then {} else .postBoot
  memory := {
    cartridge := s.cartridge
    boot := s.boot
    bootMapped := !s.boot.isEmpty
    flat := if s.isFlat then some (Memory.overlay s.cartridge (.replicate 0x10000 0)) else none }

/-- A reset leaves the initial machine of the mode and the images. -/
theorem Machine.reset_eq (m : Machine) : m.reset = m.memory.setup.initial := by
  unfold reset Setup.initial Memory.reset Memory.setup Memory.isFlat
  cases m.memory.flat <;> simp

/-- Without a cartridge, plain RAM is as it was. -/
theorem Memory.overlay_empty (ram : Vector UInt8 0x10000) : overlay .empty ram = ram := by
  ext i hi
  simp [overlay, Image.empty]

/-- A new machine is the initial one without images. -/
theorem Machine.IsNew.eq_initial {m : Machine} (h : m.IsNew) :
    m = Setup.initial ⟨m.memory.isFlat, .empty, .empty⟩ := by
  rcases h with rfl | rfl
  · rfl
  · have hram := (Memory.overlay_empty (.replicate 0x10000 0)).symm
    exact congrArg (fun ram => (⟨{}, { flat := some ram }⟩ : Machine)) hram

/-! ### Loads -/

/-- Load the image of a cartridge, if there is one. -/
def Machine.loadRom? (m : Machine) (rom? : Option (Array UInt8)) : Except ImageError Machine :=
  rom?.elim (.ok m) m.loadRom

/-- Load and map the image of a boot ROM, if there is one. -/
def Machine.loadBootRom? (m : Machine) (boot? : Option (Array UInt8)) : Except ImageError Machine :=
  boot?.elim (.ok m) m.loadBootRom

/-- A boot ROM that is accepted has a byte at least. -/
theorem isEmpty_eq_false_of_bootImageOf? {bytes : Array UInt8} {image : BootImage}
    (h : bootImageOf? bytes = .ok image) : image.isEmpty = false := by
  unfold bootImageOf? at h
  split_ifs at h with hempty hsize
  cases h
  exact Bool.eq_false_iff.mpr hempty

namespace Setup

variable (isFlat : Bool)

/-- On an initial machine without a cartridge, loads lead to the initial one with the cartridge. -/
theorem loadRom?_initial (boot : BootImage) {rom? : Option (Array UInt8)} {cartridge : Cartridge}
    (h : .ok cartridge = rom?.elim (.ok .empty) cartridgeOf?) :
    (initial ⟨isFlat, .empty, boot⟩).loadRom? rom? = .ok (initial ⟨isFlat, cartridge, boot⟩) := by
  cases rom? with
  | none =>
    cases h
    rfl
  | some bytes =>
    have himage : cartridgeOf? bytes = .ok cartridge := h.symm
    rw [Machine.loadRom?, Option.elim_some, Machine.loadRom, Memory.loadRom, himage]
    refine congrArg Except.ok ?_
    cases isFlat with
    | false => rfl
    | true => simp [initial, Memory.insert, Memory.overlay_empty]

/-- On an initial machine without a boot ROM, loads lead to the initial one with the boot ROM. -/
theorem loadBootRom?_initial (cartridge : Cartridge) {boot? : Option (Array UInt8)}
    {boot : BootImage} (h : .ok boot = boot?.elim (.ok .empty) bootImageOf?) :
    (initial ⟨isFlat, cartridge, .empty⟩).loadBootRom? boot? =
      .ok (initial ⟨isFlat, cartridge, boot⟩) := by
  cases boot? with
  | none =>
    cases h
    rfl
  | some bytes =>
    have himage : bootImageOf? bytes = .ok boot := h.symm
    have hboot : boot.isEmpty = false := isEmpty_eq_false_of_bootImageOf? himage
    rw [Machine.loadBootRom?, Option.elim_some, Machine.loadBootRom, Memory.loadBootRom, himage]
    simp only [initial, hboot, Bool.not_false, Bool.true_or, if_true]
    rfl

end Setup

/-- **A reset leaves a new machine with the same images.** Whatever was done with a new machine of
either mode, a reset leaves what another new machine of that mode becomes by loading the images that
were accepted last, if any were: the image of a cartridge before that of a boot ROM, or after it. -/
theorem reset_eq_new_with_last_images {start : Machine} (hnew : start.IsNew)
    (actions : List Machine.Action) :
    (start.loadRom? (start.last? Machine.acceptedRom? actions) >>=
        (·.loadBootRom? (start.last? Machine.acceptedBootRom? actions))) =
      .ok (start.performAll actions).reset ∧
    (start.loadBootRom? (start.last? Machine.acceptedBootRom? actions) >>=
        (·.loadRom? (start.last? Machine.acceptedRom? actions))) =
      .ok (start.performAll actions).reset := by
  have hrom := start.cartridge_performAll actions
  have hboot := start.boot_performAll actions
  have hreset : (start.performAll actions).reset = Setup.initial ⟨start.memory.isFlat,
      (start.performAll actions).memory.cartridge, (start.performAll actions).memory.boot⟩ := by
    rw [Machine.reset_eq, Memory.setup, Machine.isFlat_performAll]
  have hcartridge₀ : start.memory.cartridge = .empty := by rcases hnew with rfl | rfl <;> rfl
  have hboot₀ : start.memory.boot = .empty := by rcases hnew with rfl | rfl <;> rfl
  rw [hcartridge₀] at hrom
  rw [hboot₀] at hboot
  rw [hreset]
  constructor
  · have hload := Setup.loadRom?_initial start.memory.isFlat .empty hrom
    rw [← hnew.eq_initial] at hload
    rw [hload]
    exact Setup.loadBootRom?_initial start.memory.isFlat _ hboot
  · have hload := Setup.loadBootRom?_initial start.memory.isFlat .empty hboot
    rw [← hnew.eq_initial] at hload
    rw [hload]
    exact Setup.loadRom?_initial start.memory.isFlat _ hrom

/-- After a step, a write, a second cartridge and a boot ROM that is refused, a reset leaves the
second cartridge and the boot ROM of before, in either mode. -/
theorem reset_keeps_second_cartridge :
    let actions : List Machine.Action :=
      [.loadRom #[0x3C], .loadBootRom #[0x00, 0x3C], .step, .write8 0xC000 0x12,
        .loadRom #[0x76, 0x00], .loadBootRom #[]]
    Machine.powerOn.IsNew ∧ Machine.emptyFlat.IsNew ∧
      Machine.powerOn.last? Machine.acceptedRom? actions = some #[0x76, 0x00] ∧
      Machine.powerOn.last? Machine.acceptedBootRom? actions = some #[0x00, 0x3C] ∧
      (Machine.powerOn.loadRom? (Machine.powerOn.last? Machine.acceptedRom? actions) >>=
          (·.loadBootRom? (Machine.powerOn.last? Machine.acceptedBootRom? actions))) =
        .ok (Machine.powerOn.performAll actions).reset ∧
      (Machine.emptyFlat.loadBootRom? (Machine.emptyFlat.last? Machine.acceptedBootRom? actions) >>=
          (·.loadRom? (Machine.emptyFlat.last? Machine.acceptedRom? actions))) =
        .ok (Machine.emptyFlat.performAll actions).reset := by
  intro actions
  have hmapped : Machine.powerOn.IsNew := .inl rfl
  have hflat : Machine.emptyFlat.IsNew := .inr rfl
  exact ⟨hmapped, hflat, by decide +kernel, by decide +kernel,
    (reset_eq_new_with_last_images hmapped actions).1,
    (reset_eq_new_with_last_images hflat actions).2⟩

end Sm83
