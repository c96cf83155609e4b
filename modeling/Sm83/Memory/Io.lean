import Sm83.Serial
import Sm83.Timer

/-!
# The I/O registers

The page of I/O registers is described by tables.  A few registers belong to a device or have an
effect of their own when written.  The others are cells in which some bits can be written and
some bits always read as one; where there is no register, all bits do.

## Main definitions

* `IoRegister`, `ioRegister` — what lies at an offset of the page.
* `ioOnes`, `ioWritable` — the bits of a cell that read as one, and those that can be written.
* `ioInitial` — the cells at power-on.
-/

namespace Sm83

/-- What lies at an offset of the I/O page. -/
inductive IoRegister where
  /-- A register of the serial link. -/
  | serial (r : Serial.Register)
  /-- A register of the timer. -/
  | timer (r : Timer.Register)
  /-- The interrupt requests. -/
  | requests
  /-- The page of the last transfer to OAM; a write starts one. -/
  | dma
  /-- The lock of the boot ROM; any write unmaps it. -/
  | lockout
  /-- A cell without effects. -/
  | cell
  deriving DecidableEq, Repr

/-- The register at an offset of the I/O page. -/
def ioRegister (offset : Fin 0x80) : IoRegister :=
  match offset.val with
  | 0x01 => .serial .sb
  | 0x02 => .serial .sc
  | 0x04 => .timer .div
  | 0x05 => .timer .tima
  | 0x06 => .timer .tma
  | 0x07 => .timer .tac
  | 0x0F => .requests
  | 0x46 => .dma
  | 0x50 => .lockout
  | _ => .cell

/-- The bits of the sound registers that read as one, from offset `0x10` on.  The last sixteen
cells hold the wave pattern. -/
def soundOnes : Array UInt8 :=
  #[0x80, 0x3F, 0x00, 0xFF, 0xBF, 0xFF, 0x3F, 0x00, 0xFF, 0xBF, 0x7F, 0xFF, 0x9F, 0xFF, 0xBF, 0xFF,
    0xFF, 0x00, 0x00, 0xBF, 0x00, 0x00, 0x70, 0xFF, 0xFF, 0xFF, 0xFF, 0xFF, 0xFF, 0xFF, 0xFF, 0xFF,
    0x00, 0x00, 0x00, 0x00, 0x00, 0x00, 0x00, 0x00, 0x00, 0x00, 0x00, 0x00, 0x00, 0x00, 0x00, 0x00]

/-- The bits of a cell that read as one whatever is stored.  No buttons are modelled, so the four
input lines of the joypad read as released; `STAT` has seven bits; the remaining LCD registers
have eight. -/
def ioOnes (offset : Fin 0x80) : UInt8 :=
  let n := offset.val
  if n = 0x00 then 0xCF
  else if n < 0x10 then 0xFF
  else if n < 0x40 then soundOnes.getD (n - 0x10) 0xFF
  else if n = 0x41 then 0x80
  else if n < 0x4C then 0x00
  else 0xFF

/-- The bits of a cell that the processor can write.  The mode and coincidence bits of `STAT`,
and `LY`, belong to the LCD controller. -/
def ioWritable (offset : Fin 0x80) : UInt8 :=
  let n := offset.val
  if n = 0x00 then 0x30
  else if n < 0x10 then 0x00
  else if n = 0x41 then 0x78
  else if n = 0x44 then 0x00
  else if n < 0x4C then 0xFF
  else 0x00

/-- The cells at power-on. -/
def ioInitial : Vector UInt8 0x80 :=
  ((Vector.replicate 0x80 0).set 0x00 0x30).set 0x46 0xFF

/-- What a cell shows of its content. -/
def ioShown (offset : Fin 0x80) (content : UInt8) : UInt8 :=
  content ||| ioOnes offset

/-- The content of a cell after a write. -/
def ioWritten (offset : Fin 0x80) (content v : UInt8) : UInt8 :=
  (content &&& ~~~ioWritable offset) ||| (v &&& ioWritable offset)

end Sm83
