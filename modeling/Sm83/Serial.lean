import Sm83.Word

/-!
# The serial link

Nothing is attached to the link, so a transfer clocked by the machine itself ends at once: the
byte in `SB` leaves, and all ones arrive.  The bytes that left are kept in order.

## Main definitions

* `Serial` — the registers `SB` and `SC`, and the bytes sent so far.
* `Serial.Register`, `Serial.read`, `Serial.write` — access by the processor.
* `Serial.take` — hand over what was sent.
-/

namespace Sm83

/-- The state of the serial link. -/
structure Serial where
  /-- The data register. -/
  sb : UInt8 := 0
  /-- The control register. -/
  sc : UInt8 := 0x7E
  /-- The bytes sent so far, the earliest first. -/
  sent : Array UInt8 := #[]
  deriving DecidableEq, Repr

namespace Serial

/-- The registers through which the processor reaches the link. -/
inductive Register where
  | sb | sc
  deriving DecidableEq, Repr

/-- What the processor reads from a register.  The unused bits of `SC` read as ones. -/
def read (s : Serial) : Register → UInt8
  | .sb => s.sb
  | .sc => s.sc ||| 0x7E

/-- Whether a control byte starts a transfer on the machine's own clock. -/
def starts (v : UInt8) : Bool :=
  v &&& 0x81 == 0x81

/-- What a write by the processor does, and whether it completed a transfer.  Writing `SC` with
the start and clock bits set sends `SB`; the start bit is clear afterwards. -/
def write (s : Serial) (reg : Register) (v : UInt8) : Bool × Serial :=
  match reg with
  | .sb => (false, { s with sb := v })
  | .sc =>
    if starts v then (true, { sb := 0xFF, sc := v &&& 0x7F, sent := s.sent.push s.sb })
    else (false, { s with sc := v })

/-- The register at an address. -/
def Register.ofAddress? (addr : UInt16) : Option Register :=
  match addr with
  | 0xFF01 => some .sb
  | 0xFF02 => some .sc
  | _ => none

/-- What is read at an address; all ones where there is no register of the link. -/
def readAt (s : Serial) (addr : UInt16) : UInt8 :=
  (Register.ofAddress? addr).elim 0xFF s.read

/-- What a write at an address does; nothing where there is no register of the link. -/
def writeAt (s : Serial) (addr : UInt16) (v : UInt8) : Bool × Serial :=
  match Register.ofAddress? addr with
  | some r => s.write r v
  | none => (false, s)

/-- The bytes sent so far, and the link with none of them left. -/
def take (s : Serial) : Array UInt8 × Serial :=
  (s.sent, { s with sent := #[] })

end Serial

end Sm83
