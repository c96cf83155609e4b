import Sm83.Bus
import Sm83.Memory.Image
import Sm83.Memory.Io
import Sm83.Memory.Region

/-!
# Memory

The address space of the machine, with the devices that answer in it.  In the usual mode every
access goes to the region that `locate` names.  In flat mode 64 KiB of plain RAM answer
instead; the regions and devices are still there, but no access reaches them.

## Main definitions

* `Memory` — the state of everything that answers.
* `Memory.read8`, `Memory.write8` — access to bytes.
* `Memory.backing?` — the stored bytes from an address to the end of its region.
* `Memory.loadRom`, `Memory.loadBootRom`, `Memory.reset` — images and the return to power-on.
-/

namespace Sm83

/-- Everything that answers in the address space.  By default nothing is loaded and the mode is
the usual one. -/
structure Memory where
  cartridge : Cartridge := .empty
  boot : BootImage := .empty
  /-- Whether the boot ROM covers the first page. -/
  bootMapped : Bool := false
  vram : Vector UInt8 0x2000 := .replicate 0x2000 0
  wram : Vector UInt8 0x2000 := .replicate 0x2000 0
  oam : Vector UInt8 0xA0 := .replicate 0xA0 0
  hram : Vector UInt8 0x7F := .replicate 0x7F 0
  /-- The cells of the I/O page. -/
  io : Vector UInt8 0x80 := ioInitial
  /-- The interrupt requests `IF`. -/
  requests : UInt8 := 0x01
  /-- The enabled interrupts `IE`. -/
  enables : UInt8 := 0x00
  timer : Timer := {}
  serial : Serial := {}
  /-- The plain RAM of flat mode. -/
  flat : Option (Vector UInt8 0x10000) := none
  deriving DecidableEq

namespace Memory

/-- Memory in flat mode, all zero. -/
def emptyFlat : Memory :=
  { flat := some (.replicate 0x10000 0) }

/-- Whether the mode is flat. -/
def isFlat (m : Memory) : Bool :=
  m.flat.isSome

/-- The place to which an address leads in the usual mode. -/
def resolve (m : Memory) (addr : UInt16) : Location :=
  locate m.bootMapped addr

/-! ### Reading -/

/-- Read a register of the I/O page. -/
def readIo (m : Memory) (offset : Fin 0x80) : UInt8 :=
  match ioRegister offset with
  | .serial r => m.serial.read r
  | .timer r => m.timer.read r
  | .requests => m.requests ||| ~~~Interrupt.allMask
  | .dma | .lockout | .cell => ioShown offset (m.io.get offset)

/-- Read a place. -/
def readLocation (m : Memory) : Location → UInt8
  | ⟨.bootRom, o⟩ => m.boot.read o
  | ⟨.rom0, o⟩ => m.cartridge.read o
  | ⟨.rom1, o⟩ => m.cartridge.read (0x4000 + o)
  | ⟨.vram, o⟩ => m.vram[o]
  | ⟨.externalRam, _⟩ => openBus
  | ⟨.wram, o⟩ => m.wram[o]
  | ⟨.oam, o⟩ => m.oam[o]
  | ⟨.unusable, _⟩ => openBus
  | ⟨.io, o⟩ => m.readIo o
  | ⟨.hram, o⟩ => m.hram[o]
  | ⟨.ie, _⟩ => m.enables

/-- Read the byte at an address. -/
def read8 (m : Memory) (addr : UInt16) : UInt8 :=
  match m.flat with
  | some ram => ram[addr.toFin]
  | none => m.readLocation (m.resolve addr)

/-- Read the word at an address, lower byte first. -/
def read16 (m : Memory) (addr : UInt16) : UInt16 :=
  word (m.read8 (addr + 1)) (m.read8 addr)

/-! ### Writing -/

/-- Copy a page to OAM, byte after byte. -/
def copyToOam (m : Memory) (page : UInt8) : Memory :=
  Fin.foldl 0xA0 (fun m i => { m with oam := m.oam.set i (m.read8 (word page (UInt8.ofNat i))) }) m

/-- Write a register of the I/O page. -/
def writeIo (m : Memory) (offset : Fin 0x80) (v : UInt8) : Memory :=
  match ioRegister offset with
  | .serial r =>
    let (sent, serial) := m.serial.write r v
    { m with serial := serial, requests := Interrupt.serial.request sent m.requests }
  | .timer r =>
    let (overflow, timer) := m.timer.write r v
    { m with timer := timer, requests := Interrupt.timer.request overflow m.requests }
  | .requests => { m with requests := v &&& Interrupt.allMask }
  | .dma => copyToOam { m with io := m.io.set offset v offset.isLt } v
  | .lockout => { m with bootMapped := false }
  | .cell => { m with io := m.io.set offset (ioWritten offset (m.io.get offset) v) offset.isLt }

/-- Write a place.  ROM cannot be written, and where nothing answers a write is lost. -/
def writeLocation (m : Memory) (loc : Location) (v : UInt8) : Memory :=
  match loc with
  | ⟨.vram, o⟩ => { m with vram := m.vram.set o v }
  | ⟨.wram, o⟩ => { m with wram := m.wram.set o v }
  | ⟨.oam, o⟩ => { m with oam := m.oam.set o v }
  | ⟨.hram, o⟩ => { m with hram := m.hram.set o v }
  | ⟨.io, o⟩ => m.writeIo o v
  | ⟨.ie, _⟩ => { m with enables := v }
  | ⟨.bootRom, _⟩ | ⟨.rom0, _⟩ | ⟨.rom1, _⟩ | ⟨.externalRam, _⟩ | ⟨.unusable, _⟩ => m

/-- Write the byte at an address. -/
def write8 (m : Memory) (addr : UInt16) (v : UInt8) : Memory :=
  match m.flat with
  | some ram => { m with flat := some (ram.set addr.toFin v) }
  | none => m.writeLocation (m.resolve addr) v

/-- Write the word at an address, lower byte first. -/
def write16 (m : Memory) (addr w : UInt16) : Memory :=
  (m.write8 addr (lowByte w)).write8 (addr + 1) (highByte w)

/-! ### As surroundings of the processor -/

instance : Bus Memory where
  read addr m := (m.read8 addr, m)
  write addr v m := m.write8 addr v
  pending m := m.requests &&& m.enables &&& Interrupt.allMask
  acknowledge i m := { m with requests := i.clear m.requests }

@[simp] theorem read_eq (m : Memory) (addr : UInt16) :
    ByteSource.read addr m = (m.read8 addr, m) := rfl

@[simp] theorem write_eq (m : Memory) (addr : UInt16) (v : UInt8) :
    Bus.write addr v m = m.write8 addr v := rfl

@[simp] theorem pending_eq (m : Memory) :
    Bus.pending m = m.requests &&& m.enables &&& Interrupt.allMask := rfl

@[simp] theorem acknowledge_eq (m : Memory) (i : Interrupt) :
    Bus.acknowledge i m = { m with requests := i.clear m.requests } := rfl

/-! ### Access in bulk -/

/-- The bytes of a bank of the cartridge from an offset on. -/
def bankFrom (m : Memory) (base : Nat) (offset : Fin 0x4000) : Array UInt8 :=
  .ofFn fun i : Fin (0x4000 - offset) => m.cartridge.read (base + offset + i)

/-- The stored bytes from an address to the end of its region; `none` where no storage answers.
An image shorter than the boot ROM's page ends early. -/
def backing? (m : Memory) (addr : UInt16) : Option (Array UInt8) :=
  match m.flat with
  | some ram => some (ram.toArray.extract addr.toNat 0x10000)
  | none =>
    match m.resolve addr with
    | ⟨.bootRom, o⟩ =>
      if o.val ≤ m.boot.bytes.size then some (m.boot.bytes.extract o m.boot.bytes.size) else none
    | ⟨.rom0, o⟩ => some (m.bankFrom 0 o)
    | ⟨.rom1, o⟩ => some (m.bankFrom 0x4000 o)
    | ⟨.vram, o⟩ => some (m.vram.toArray.extract o 0x2000)
    | ⟨.wram, o⟩ => some (m.wram.toArray.extract o 0x2000)
    | ⟨.oam, o⟩ => some (m.oam.toArray.extract o 0xA0)
    | ⟨.hram, o⟩ => some (m.hram.toArray.extract o 0x7F)
    | ⟨.externalRam, _⟩ | ⟨.unusable, _⟩ | ⟨.io, _⟩ | ⟨.ie, _⟩ => none

/-! ### Images and reset -/

/-- Lay the bytes of a cartridge over the start of plain RAM. -/
def overlay (cartridge : Cartridge) (ram : Vector UInt8 0x10000) : Vector UInt8 0x10000 :=
  .ofFn fun i => cartridge.bytes.getD i ram[i]

/-- Insert a cartridge.  In flat mode its bytes are copied to RAM. -/
def insert (m : Memory) (cartridge : Cartridge) : Memory :=
  { m with cartridge := cartridge, flat := m.flat.map (overlay cartridge) }

/-- Load the image of a cartridge.  A refused image changes nothing. -/
def loadRom (m : Memory) (bytes : Array UInt8) : Except ImageError Memory :=
  (cartridgeOf? bytes).map m.insert

/-- Load the image of a boot ROM and map it.  A refused image changes nothing. -/
def loadBootRom (m : Memory) (bytes : Array UInt8) : Except ImageError Memory :=
  (bootImageOf? bytes).map fun image => { m with boot := image, bootMapped := true }

/-- The state at power-on with the same images and mode: RAM and devices are cleared, and the
boot ROM is mapped if there is one. -/
def reset (m : Memory) : Memory where
  cartridge := m.cartridge
  boot := m.boot
  bootMapped := !m.boot.isEmpty
  flat := m.flat.map fun _ => overlay m.cartridge (.replicate 0x10000 0)

end Memory

end Sm83
