/-!
# Bytes and words

The machine computes on bytes (`UInt8`) and on 16-bit words (`UInt16`), both modulo their
size.  This file joins two bytes to a word, splits a word, and moves an address by a signed
displacement.  Joining and splitting are written arithmetically, so that their laws are facts
about division by 256.

## Main definitions

* `word high low` — the word with the given bytes.
* `highByte`, `lowByte` — the bytes of a word.
* `twoBits`, `threeBits` — the lowest bits of a number, as the fields of encodings are.
* `bitMask i` — the byte in which one bit is set.
* `displaced a e` — the address `a + e` for a signed displacement `e`.

## Main results

* `word_highByte_lowByte` — a word is joined from its own bytes.
* `highByte_word`, `lowByte_word` — joining loses neither byte.
-/

namespace Sm83

/-- The word with the given high and low bytes. -/
@[inline] def word (high low : UInt8) : UInt16 :=
  high.toUInt16 * 256 + low.toUInt16

/-- The upper eight bits of a word. -/
@[inline] def highByte (w : UInt16) : UInt8 :=
  (w / 256).toUInt8

/-- The lower eight bits of a word. -/
@[inline] def lowByte (w : UInt16) : UInt8 :=
  w.toUInt8

/-- The address `a + e` modulo `2 ^ 16`, with the displacement `e` extended by its sign. -/
@[inline] def displaced (a : UInt16) (e : Int8) : UInt16 :=
  a + e.toInt16.toUInt16

/-- The lowest two bits of a number. -/
def twoBits (n : Nat) : Fin 4 :=
  ⟨n % 4, Nat.mod_lt n (by decide)⟩

/-- The lowest three bits of a number. -/
def threeBits (n : Nat) : Fin 8 :=
  ⟨n % 8, Nat.mod_lt n (by decide)⟩

/-- One for `true`, zero for `false`. -/
@[inline] def bitOf (b : Bool) : UInt8 :=
  if b then 1 else 0

/-- The byte in which bit `i` alone is set. -/
def bitMask : (i : Fin 8) → UInt8
  | 0 => 0x01
  | 1 => 0x02
  | 2 => 0x04
  | 3 => 0x08
  | 4 => 0x10
  | 5 => 0x20
  | 6 => 0x40
  | 7 => 0x80

theorem toNat_word (high low : UInt8) :
    (word high low).toNat = high.toNat * 256 + low.toNat := by
  have h₁ := high.toNat_lt
  have h₂ := low.toNat_lt
  simp only [word, UInt16.toNat_add, UInt16.toNat_mul, UInt8.toNat_toUInt16, UInt16.reduceToNat]
  omega

theorem toNat_highByte (w : UInt16) : (highByte w).toNat = w.toNat / 256 := by
  have h := w.toNat_lt
  simp only [highByte, UInt16.toNat_toUInt8, UInt16.toNat_div, UInt16.reduceToNat]
  omega

theorem toNat_lowByte (w : UInt16) : (lowByte w).toNat = w.toNat % 256 := by
  simp [lowByte]

@[simp] theorem highByte_word (high low : UInt8) : highByte (word high low) = high := by
  have h := low.toNat_lt
  apply UInt8.toNat_inj.mp
  rw [toNat_highByte, toNat_word]
  omega

@[simp] theorem lowByte_word (high low : UInt8) : lowByte (word high low) = low := by
  have h := low.toNat_lt
  apply UInt8.toNat_inj.mp
  rw [toNat_lowByte, toNat_word]
  omega

@[simp] theorem word_highByte_lowByte (w : UInt16) : word (highByte w) (lowByte w) = w := by
  apply UInt16.toNat_inj.mp
  rw [toNat_word, toNat_highByte, toNat_lowByte]
  omega

end Sm83
