import Sm83.Json.Number

/-!
# JSON values

A value is kept as it is written.  Strings are sequences of characters and of escaped UTF-16
code units, of which only some denote a text; numbers keep their digits.  So a reader decides
for itself how strict to be with the values it uses.

## Main definitions

* `TextUnit`, `textOf?` — the pieces of a string, and the text that they denote.
* `Json` — the values.
* `Json.isSound` — whether a value can be held with doubles and proper texts.
-/

namespace Sm83

/-- A piece of a string. -/
inductive TextUnit where
  /-- A character. -/
  | char (c : Char)
  /-- An escaped UTF-16 code unit. -/
  | code (u : Nat)
  deriving DecidableEq, Repr

/-- The text that the pieces of a string denote.  A code unit of a surrogate pair needs its
partner behind it. -/
def textOf? : List TextUnit → Option (List Char)
  | [] => some []
  | .char c :: rest => (textOf? rest).map (c :: ·)
  | .code u :: .code v :: rest =>
    if 0xD800 ≤ u ∧ u < 0xDC00 then
      if 0xDC00 ≤ v ∧ v < 0xE000 then
        (textOf? rest).map (Char.ofNat (0x10000 + (u - 0xD800) * 0x400 + (v - 0xDC00)) :: ·)
      else none
    else if 0xDC00 ≤ u ∧ u < 0xE000 then none
    else (textOf? (.code v :: rest)).map (Char.ofNat u :: ·)
  | .code u :: rest =>
    if 0xD800 ≤ u ∧ u < 0xE000 then none
    else (textOf? rest).map (Char.ofNat u :: ·)

/-- A JSON value. -/
inductive Json where
  | null
  | bool (b : Bool)
  | number (n : JsonNumber)
  | string (units : List TextUnit)
  | array (items : List Json)
  | object (members : List (List TextUnit × Json))

mutual

/-- Whether a value can be held: its strings and keys denote texts, its numbers are finite, and
it is nested at most `depth` deep. -/
def Json.isSound (depth : Nat) : Json → Bool
  | .null => true
  | .bool _ => true
  | .number n => n.isFinite
  | .string units => (textOf? units).isSome
  | .array items => 0 < depth && itemsSound (depth - 1) items
  | .object members => 0 < depth && membersSound (depth - 1) members

/-- Whether all items of an array can be held. -/
def itemsSound (depth : Nat) : List Json → Bool
  | [] => true
  | j :: rest => j.isSound depth && itemsSound depth rest

/-- Whether all members of an object can be held. -/
def membersSound (depth : Nat) : List (List TextUnit × Json) → Bool
  | [] => true
  | (key, j) :: rest => (textOf? key).isSome && j.isSound depth && membersSound depth rest

end

end Sm83
