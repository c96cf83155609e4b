import Mathlib.Data.List.FinRange
import Sm83.Memory.Basic

/-!
# Accesses stay within their stores

Every store of the memory is an array, and an access picks a cell of it by a number. Here the
accesses are written down once more with a check at every array index and at both ends of every
slice: an access that misses its store gives `none`. The offset of a place is below the size of its
region, and every store is as large as its region, so no check ever fails. The two banks of the
cartridge are the one store whose size is not that of what was loaded: a shorter image is filled up
with what the open bus shows.

## Main definitions

* `Memory.rom` — the banks of the cartridge as one array.
* `slice?`, `put?` — a slice of an array, and a write to a cell, with their checks.
* `Memory.checkedRead8`, `Memory.checkedWrite8`, `Memory.checkedCopyToOam`,
  `Memory.checkedBacking` — the accesses with all their checks.

## Main results

* `Memory.size_rom` — the banks are always complete.
* `Memory.checkedRead8_eq`, `Memory.checkedWrite8_eq`, `Memory.checkedCopyToOam_eq`,
  `Memory.checkedBacking_eq` — no check fails, at any address.
-/

namespace Sm83

/-- The bytes of an array from `start` up to `stop`; `none` unless the array has them. -/
def slice? (bytes : Array UInt8) (start stop : Nat) : Option (Array UInt8) :=
  if start ≤ stop ∧ stop ≤ bytes.size then some (bytes.extract start stop) else none

/-- A store after a write to its cell `i`; `none` if there is no such cell. -/
def put? {size : Nat} (store : Vector UInt8 size) (i : Nat) (v : UInt8) :
    Option (Vector UInt8 size) :=
  if h : i < size then some (store.set i v h) else none

theorem slice?_eq_some {bytes : Array UInt8} {start stop : Nat} (hstart : start ≤ stop)
    (hstop : stop ≤ bytes.size) : slice? bytes start stop = some (bytes.extract start stop) :=
  if_pos ⟨hstart, hstop⟩

theorem put?_eq_some {size i : Nat} (h : i < size) (store : Vector UInt8 size) (v : UInt8) :
    put? store i v = some (store.set i v h) :=
  dif_pos h

namespace Memory

variable (m : Memory)

/-! ### The banks of the cartridge -/

/-- The two banks of the cartridge. What the image does not fill is as the open bus. -/
def rom : Array UInt8 :=
  m.cartridge.bytes ++ Array.replicate (0x8000 - m.cartridge.bytes.size) openBus

theorem size_rom : m.rom.size = 0x8000 := by
  rw [rom, Array.size_append, Array.size_replicate]
  exact Nat.add_sub_cancel' m.cartridge.size_le

theorem getElem?_rom {i : Nat} (h : i < 0x8000) : m.rom[i]? = some (m.cartridge.read i) := by
  have hsize := m.size_rom
  rw [rom] at hsize ⊢
  by_cases hi : i < m.cartridge.bytes.size
  · simp [Image.read, Array.getElem?_append, hi]
  · have hrest : i - m.cartridge.bytes.size < 0x8000 - m.cartridge.bytes.size := by omega
    simp [Image.read, Array.getElem?_append, hi, hrest]

/-! ### Reading -/

/-- Read a register of the I/O page, with the check of its cell. -/
def checkedReadIo (offset : Fin 0x80) : Option UInt8 :=
  match ioRegister offset with
  | .dma | .lockout | .cell => m.io[offset.val]?.map (ioShown offset)
  | .serial _ | .timer _ | .requests => some (m.readIo offset)

/-- Read a place, with the check of its cell. An image of the boot ROM may end early, so a read of
it does not count on its size. -/
def checkedReadLocation : Location → Option UInt8
  | ⟨.bootRom, o⟩ => some (m.boot.read o)
  | ⟨.rom0, o⟩ => m.rom[o.val]?
  | ⟨.rom1, o⟩ => m.rom[0x4000 + o.val]?
  | ⟨.vram, o⟩ => m.vram[o.val]?
  | ⟨.wram, o⟩ => m.wram[o.val]?
  | ⟨.oam, o⟩ => m.oam[o.val]?
  | ⟨.hram, o⟩ => m.hram[o.val]?
  | ⟨.io, o⟩ => m.checkedReadIo o
  | ⟨.ie, _⟩ => some m.enables
  | ⟨.externalRam, _⟩ | ⟨.unusable, _⟩ => some openBus

/-- Read the byte at an address, with all checks. -/
def checkedRead8 (addr : UInt16) : Option UInt8 :=
  match m.flat with
  | some ram => ram[addr.toNat]?
  | none => m.checkedReadLocation (m.resolve addr)

theorem checkedReadIo_eq (o : Fin 0x80) : m.checkedReadIo o = some (m.readIo o) := by
  have hcell : m.io[o.val]? = some (m.io.get o) := Vector.getElem?_eq_getElem o.isLt
  unfold checkedReadIo readIo
  cases ioRegister o <;> simp only [hcell, Option.map_some]

theorem checkedReadLocation_eq (l : Location) :
    m.checkedReadLocation l = some (m.readLocation l) := by
  obtain ⟨r, o⟩ := l
  have ho := o.isLt
  cases r with
  | rom0 => exact m.getElem?_rom (by simp only [Region.size] at ho; omega)
  | rom1 => exact m.getElem?_rom (by simp only [Region.size] at ho; omega)
  | vram | wram | oam | hram => exact Vector.getElem?_eq_getElem ho
  | io => exact m.checkedReadIo_eq o
  | bootRom | externalRam | unusable | ie => rfl

/-- No read misses its store. -/
theorem checkedRead8_eq (addr : UInt16) : m.checkedRead8 addr = some (m.read8 addr) := by
  unfold checkedRead8 read8
  cases m.flat with
  | some ram => exact Vector.getElem?_eq_getElem addr.toNat_lt
  | none => exact m.checkedReadLocation_eq (m.resolve addr)

/-! ### Writing -/

/-- Copy a byte of a page to OAM, with all checks. -/
def checkedCopyByte (page : UInt8) (m : Memory) (i : Nat) : Option Memory := do
  let v ← m.checkedRead8 (word page (UInt8.ofNat i))
  let oam ← put? m.oam i v
  return { m with oam := oam }

/-- Copy a page to OAM, byte after byte, with all checks. -/
def checkedCopyToOam (page : UInt8) : Option Memory :=
  (List.range 0xA0).foldlM (checkedCopyByte page) m

/-- Write a register of the I/O page, with the checks of its cell. -/
def checkedWriteIo (offset : Fin 0x80) (v : UInt8) : Option Memory :=
  match ioRegister offset with
  | .dma => do
    let io ← put? m.io offset v
    checkedCopyToOam { m with io := io } v
  | .cell => do
    let content ← m.io[offset.val]?
    let io ← put? m.io offset (ioWritten offset content v)
    return { m with io := io }
  | .serial _ | .timer _ | .requests | .lockout => some (m.writeIo offset v)

/-- Write a place, with the check of its cell. -/
def checkedWriteLocation (loc : Location) (v : UInt8) : Option Memory :=
  match loc with
  | ⟨.vram, o⟩ => (put? m.vram o v).map fun vram => { m with vram := vram }
  | ⟨.wram, o⟩ => (put? m.wram o v).map fun wram => { m with wram := wram }
  | ⟨.oam, o⟩ => (put? m.oam o v).map fun oam => { m with oam := oam }
  | ⟨.hram, o⟩ => (put? m.hram o v).map fun hram => { m with hram := hram }
  | ⟨.io, o⟩ => m.checkedWriteIo o v
  | ⟨.ie, _⟩ => some { m with enables := v }
  | ⟨.bootRom, _⟩ | ⟨.rom0, _⟩ | ⟨.rom1, _⟩ | ⟨.externalRam, _⟩ | ⟨.unusable, _⟩ => some m

/-- Write the byte at an address, with all checks. -/
def checkedWrite8 (addr : UInt16) (v : UInt8) : Option Memory :=
  match m.flat with
  | some ram => (put? ram addr.toNat v).map fun ram => { m with flat := some ram }
  | none => m.checkedWriteLocation (m.resolve addr) v

theorem checkedCopyByte_eq (page : UInt8) (i : Fin 0xA0) :
    checkedCopyByte page m i =
      some { m with oam := m.oam.set i (m.read8 (word page (UInt8.ofNat i))) i.isLt } := by
  simp [checkedCopyByte, checkedRead8_eq, put?_eq_some i.isLt]

/-- No transfer to OAM misses a store. -/
theorem checkedCopyToOam_eq (page : UInt8) :
    m.checkedCopyToOam page = some (m.copyToOam page) := by
  rw [checkedCopyToOam, copyToOam, Fin.foldl_eq_finRange_foldl, ← List.map_coe_finRange_eq_range,
    List.foldlM_map]
  simp only [checkedCopyByte_eq]
  exact List.foldlM_pure

theorem checkedWriteIo_eq (o : Fin 0x80) (v : UInt8) :
    m.checkedWriteIo o v = some (m.writeIo o v) := by
  have hcell : m.io[o.val]? = some (m.io.get o) := Vector.getElem?_eq_getElem o.isLt
  unfold checkedWriteIo
  cases hr : ioRegister o with
  | dma => simp [put?_eq_some o.isLt, checkedCopyToOam_eq, writeIo, hr]
  | cell =>
    rw [hcell]
    simp [put?_eq_some o.isLt, writeIo, hr]
  | serial r | timer r | requests | lockout => rfl

theorem checkedWriteLocation_eq (l : Location) (v : UInt8) :
    m.checkedWriteLocation l v = some (m.writeLocation l v) := by
  obtain ⟨r, o⟩ := l
  cases r with
  | vram | wram | oam | hram =>
    rw [checkedWriteLocation, put?_eq_some o.isLt]
    rfl
  | io => exact m.checkedWriteIo_eq o v
  | bootRom | rom0 | rom1 | externalRam | unusable | ie => rfl

/-- No write misses its store. -/
theorem checkedWrite8_eq (addr : UInt16) (v : UInt8) :
    m.checkedWrite8 addr v = some (m.write8 addr v) := by
  unfold checkedWrite8 write8
  cases m.flat with
  | some ram =>
    dsimp only
    rw [put?_eq_some addr.toNat_lt]
    rfl
  | none => exact m.checkedWriteLocation_eq (m.resolve addr) v

/-! ### Access in bulk -/

/-- The stored bytes from an address to the end of its region, with the checks of the slice. The
bytes of the boot ROM are looked up, not sliced, and so may be missing. -/
def checkedBacking (addr : UInt16) : Option (Option (Array UInt8)) :=
  match m.flat with
  | some ram => (slice? ram.toArray addr.toNat ram.toArray.size).map some
  | none =>
    match m.resolve addr with
    | ⟨.bootRom, o⟩ => some (slice? m.boot.bytes o m.boot.bytes.size)
    | ⟨.rom0, o⟩ => (slice? m.rom o 0x4000).map some
    | ⟨.rom1, o⟩ => (slice? m.rom (0x4000 + o) m.rom.size).map some
    | ⟨.vram, o⟩ => (slice? m.vram.toArray o m.vram.toArray.size).map some
    | ⟨.wram, o⟩ => (slice? m.wram.toArray o m.wram.toArray.size).map some
    | ⟨.oam, o⟩ => (slice? m.oam.toArray o m.oam.toArray.size).map some
    | ⟨.hram, o⟩ => (slice? m.hram.toArray o m.hram.toArray.size).map some
    | ⟨.externalRam, _⟩ | ⟨.unusable, _⟩ | ⟨.io, _⟩ | ⟨.ie, _⟩ => some none

/-- A bank of the cartridge from an offset on is a slice of the two banks. -/
theorem extract_rom (base : Nat) (hbase : base + 0x4000 ≤ 0x8000) (o : Fin 0x4000) :
    m.rom.extract (base + o) (base + 0x4000) = m.bankFrom base o := by
  have ho := o.isLt
  have hsize : (m.rom.extract (base + o) (base + 0x4000)).size = 0x4000 - o := by
    rw [Array.size_extract, size_rom]
    omega
  have hsize' : (m.bankFrom base o).size = 0x4000 - o := Array.size_ofFn
  refine Array.ext (hsize.trans hsize'.symm) fun i hi hi' => ?_
  rw [hsize] at hi
  have hread := m.getElem?_rom (i := base + o + i) (by omega)
  have hbyte : (m.bankFrom base o)[i] = m.cartridge.read (base + o + i) := Array.getElem_ofFn _
  rw [Array.getElem_extract, hbyte]
  exact (Array.getElem?_eq_some_iff.mp hread).2

/-- No slice reaches past the end of its store. -/
theorem checkedBacking_eq (addr : UInt16) : m.checkedBacking addr = some (m.backing? addr) := by
  unfold checkedBacking backing?
  cases m.flat with
  | some ram =>
    have haddr : addr.toNat ≤ ram.toArray.size := by
      rw [Vector.size_toArray]
      exact addr.toNat_lt.le
    dsimp only
    rw [slice?_eq_some haddr (Nat.le_refl _), Vector.size_toArray]
    rfl
  | none =>
    dsimp only
    obtain ⟨r, o⟩ := m.resolve addr
    have ho := o.isLt
    cases r with
    | bootRom =>
      have hslice : slice? m.boot.bytes o m.boot.bytes.size = if o.val ≤ m.boot.bytes.size then
          some (m.boot.bytes.extract o m.boot.bytes.size) else none := by
        simp [slice?]
      exact congrArg some hslice
    | rom0 =>
      have hbank := m.extract_rom 0 (by decide) o
      rw [Nat.zero_add, Nat.zero_add] at hbank
      dsimp only
      rw [slice?_eq_some ho.le (by rw [size_rom]; decide), hbank]
      rfl
    | rom1 =>
      have hbank := m.extract_rom 0x4000 (by decide) o
      have hstart : 0x4000 + o.val ≤ m.rom.size := by
        rw [size_rom]
        exact Nat.add_le_add_left ho.le 0x4000
      dsimp only
      rw [slice?_eq_some hstart (Nat.le_refl _), size_rom, hbank]
      rfl
    | vram | wram | oam | hram =>
      dsimp only
      rw [slice?_eq_some (by rw [Vector.size_toArray]; exact ho.le) (Nat.le_refl _),
        Vector.size_toArray]
      rfl
    | externalRam | unusable | io | ie => rfl

end Memory

end Sm83
