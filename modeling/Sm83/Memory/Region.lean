import Sm83.Word

/-!
# The address map

Every address belongs to one region of memory, at an offset below the region's size.  The echo
of work RAM belongs to work RAM itself.  While the boot ROM is mapped it covers the first page
of the cartridge.

## Main definitions

* `Region`, `Region.size` — the regions and their sizes in bytes.
* `Location`, `locate` — region and offset of an address.
-/

namespace Sm83

/-- A region of the address space. -/
inductive Region where
  | bootRom | rom0 | rom1 | vram | externalRam | wram | oam | unusable | io | hram | ie
  deriving DecidableEq, Repr

/-- The size of a region in bytes. -/
@[reducible] def Region.size : Region → Nat
  | bootRom => 0x100
  | rom0 => 0x4000
  | rom1 => 0x4000
  | vram => 0x2000
  | externalRam => 0x2000
  | wram => 0x2000
  | oam => 0xA0
  | unusable => 0x60
  | io => 0x80
  | hram => 0x7F
  | ie => 1

/-- A place in memory: a region and an offset into it. -/
structure Location where
  region : Region
  offset : Fin region.size
  deriving DecidableEq, Repr

/-- The place of an address.  `bootMapped` tells whether the boot ROM covers the first page. -/
def locate (bootMapped : Bool) (addr : UInt16) : Location :=
  let n := addr.toNat
  have hn : n < 0x10000 := addr.toNat_lt
  if h₀ : bootMapped = true ∧ n < 0x100 then ⟨.bootRom, n, h₀.2⟩
  else if h₁ : n < 0x4000 then ⟨.rom0, n, h₁⟩
  else if h₂ : n < 0x8000 then ⟨.rom1, n - 0x4000, by simp only [Region.size]; omega⟩
  else if h₃ : n < 0xA000 then ⟨.vram, n - 0x8000, by simp only [Region.size]; omega⟩
  else if h₄ : n < 0xC000 then ⟨.externalRam, n - 0xA000, by simp only [Region.size]; omega⟩
  else if h₅ : n < 0xE000 then ⟨.wram, n - 0xC000, by simp only [Region.size]; omega⟩
  else if h₆ : n < 0xFE00 then ⟨.wram, n - 0xE000, by simp only [Region.size]; omega⟩
  else if h₇ : n < 0xFEA0 then ⟨.oam, n - 0xFE00, by simp only [Region.size]; omega⟩
  else if h₈ : n < 0xFF00 then ⟨.unusable, n - 0xFEA0, by simp only [Region.size]; omega⟩
  else if h₉ : n < 0xFF80 then ⟨.io, n - 0xFF00, by simp only [Region.size]; omega⟩
  else if h₁₀ : n < 0xFFFF then ⟨.hram, n - 0xFF80, by simp only [Region.size]; omega⟩
  else ⟨.ie, 0, by simp only [Region.size]; omega⟩

end Sm83
