import Sm83.Word

/-!
# Interrupts

Five devices can interrupt the processor.  Each owns one bit of the request and enable
registers and one fixed address to which the processor jumps.

## Main definitions

* `Interrupt` — the interrupts, highest priority first.
* `Interrupt.mask`, `Interrupt.vector` — the bit and the handler's address.
* `Interrupt.first?` — the interrupt that wins when several are pending.
-/

namespace Sm83

/-- The interrupts, in the order of their priority. -/
inductive Interrupt where
  | vblank | stat | timer | serial | joypad
  deriving DecidableEq, Repr

namespace Interrupt

/-- Every interrupt, highest priority first. -/
def all : List Interrupt :=
  [vblank, stat, timer, serial, joypad]

/-- The bit of an interrupt in the request and enable registers. -/
def mask : Interrupt → UInt8
  | vblank => 0x01
  | stat => 0x02
  | timer => 0x04
  | serial => 0x08
  | joypad => 0x10

/-- The address of the handler of an interrupt. -/
def vector : Interrupt → UInt16
  | vblank => 0x40
  | stat => 0x48
  | timer => 0x50
  | serial => 0x58
  | joypad => 0x60

/-- The bits of the registers that belong to an interrupt. -/
def allMask : UInt8 := 0x1F

/-- The interrupt of highest priority among the bits of a byte. -/
def first? (pending : UInt8) : Option Interrupt :=
  all.find? (pending &&& ·.mask != 0)

/-- Set the bit of an interrupt in a request register if `raised` holds. -/
@[inline] def request (i : Interrupt) (raised : Bool) (requests : UInt8) : UInt8 :=
  if raised then requests ||| i.mask else requests

/-- Clear the bit of an interrupt in a request register. -/
def clear (i : Interrupt) (requests : UInt8) : UInt8 :=
  requests &&& ~~~i.mask

end Interrupt

end Sm83
