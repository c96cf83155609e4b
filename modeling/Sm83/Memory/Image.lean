/-!
# Read-only images

The content of a ROM is a byte string of bounded size.  Past its end the bus floats, and all
ones are read.

## Main definitions

* `Image bound` — a byte string of at most `bound` bytes.
* `Image.read` — the byte at an offset.
* `ImageError`, `cartridgeOf?`, `bootImageOf?` — images from the content of a file.
-/

namespace Sm83

/-- What is read where nothing answers. -/
def openBus : UInt8 := 0xFF

/-- A byte string of at most `bound` bytes. -/
structure Image (bound : Nat) where
  bytes : Array UInt8
  size_le : bytes.size ≤ bound
  deriving DecidableEq

namespace Image

variable {bound : Nat}

/-- The image without bytes. -/
def empty : Image bound :=
  ⟨#[], Nat.zero_le bound⟩

instance : Inhabited (Image bound) :=
  ⟨empty⟩

/-- The byte at an offset. -/
def read (i : Image bound) (offset : Nat) : UInt8 :=
  i.bytes.getD offset openBus

/-- Whether nothing was loaded. -/
def isEmpty (i : Image bound) : Bool :=
  i.bytes.isEmpty

/-- The first `bound` bytes of a byte string. -/
def truncated (bytes : Array UInt8) : Image bound where
  bytes := bytes.extract 0 bound
  size_le := by
    rw [Array.size_extract]
    omega

end Image

/-- The image of a cartridge: two banks of 16 KiB. -/
abbrev Cartridge := Image 0x8000

/-- The image of a boot ROM: one page. -/
abbrev BootImage := Image 0x100

/-- The reasons for which an image is refused. -/
inductive ImageError where
  /-- There are no bytes for the cartridge. -/
  | emptyRom
  /-- There are no bytes for the boot ROM. -/
  | emptyBootRom
  /-- There are more bytes than fit in the boot ROM's page. -/
  | bootRomTooLarge (size : Nat)
  deriving DecidableEq, Repr

/-- The text of a refusal. -/
def ImageError.message : ImageError → String
  | emptyRom => "ROM image is empty"
  | emptyBootRom => "boot ROM image is empty"
  | bootRomTooLarge n =>
    "boot ROM is " ++ Nat.repr n ++ " bytes, at most 256 fit in the overlay"

/-- A cartridge with the given bytes.  No mapper is modelled, so what does not fit the two banks
is dropped. -/
def cartridgeOf? (bytes : Array UInt8) : Except ImageError Cartridge :=
  if bytes.isEmpty then .error .emptyRom else .ok (.truncated bytes)

/-- A boot ROM with the given bytes. -/
def bootImageOf? (bytes : Array UInt8) : Except ImageError BootImage :=
  if bytes.isEmpty then .error .emptyBootRom
  else if h : bytes.size ≤ 0x100 then .ok ⟨bytes, h⟩
  else .error (.bootRomTooLarge bytes.size)

end Sm83
