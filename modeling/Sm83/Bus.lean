import Sm83.Interrupt

/-!
# What the processor is connected to

The processor sees its surroundings through reads and writes of bytes and through the pending
interrupts.  Reads pass the state on, so that an observer can keep a record of them.

## Main definitions

* `ByteSource` — what can be read.
* `Bus` — what can be read and written, and can interrupt.
* `ByteSource.readWord`, `Bus.writeWord` — access to words, the lower byte first.
-/

namespace Sm83

/-- Something from which bytes can be read by address. -/
class ByteSource (β : Type u) where
  /-- The byte at an address, and the source after the read. -/
  read : (addr : UInt16) → β → UInt8 × β

/-- The surroundings of the processor. -/
class Bus (β : Type u) extends ByteSource β where
  /-- Store a byte at an address. -/
  write : (addr : UInt16) → (v : UInt8) → β → β
  /-- The bits of the interrupts that are requested and enabled. -/
  pending : β → UInt8
  /-- Withdraw the request for an interrupt. -/
  acknowledge : Interrupt → β → β

/-- A function from addresses to bytes is a source that reads do not change. -/
instance : ByteSource (UInt16 → UInt8) where
  read addr src := (src addr, src)

variable {β : Type u}

/-- The word whose lower byte is at `addr` and whose higher byte follows, modulo `2 ^ 16`. -/
@[inline] def ByteSource.readWord [ByteSource β] (addr : UInt16) (src : β) : UInt16 × β :=
  let (low, src) := ByteSource.read addr src
  let (high, src) := ByteSource.read (addr + 1) src
  (word high low, src)

/-- Store a word, the lower byte first. -/
@[inline] def Bus.writeWord [Bus β] (addr w : UInt16) (bus : β) : β :=
  Bus.write (addr + 1) (highByte w) (Bus.write addr (lowByte w) bus)

end Sm83
