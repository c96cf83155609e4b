import Sm83.Text.Numerals

/-!
# Numbers in JSON

A number is kept as it is written, as its sign and digits.  Two things are read off it: the
natural number it denotes, if it is written as one, and whether a double can hold it.

## Main definitions

* `JsonNumber`, `JsonNumber.ofChars?` — the written form.
* `JsonNumber.natural?` — the natural number written without sign, fraction and exponent.
* `JsonNumber.isFinite` — whether reading it as a double stays finite.
-/

namespace Sm83

/-- A number as it is written. -/
structure JsonNumber where
  negative : Bool
  /-- The digits before the point. -/
  whole : List Nat
  /-- The digits behind the point; none if there is no point. -/
  fraction : List Nat
  /-- The sign and digits of the exponent; `true` marks a negative one. -/
  exponent : Option (Bool × List Nat)
  deriving DecidableEq, Repr

namespace JsonNumber

/-- Read the exponent at the end of a number. -/
def exponentOf? : List Char → Option (Option (Bool × List Nat))
  | [] => some none
  | c :: cs =>
    if c = 'e' ∨ c = 'E' then
      let (negative, cs) :=
        match cs with
        | '-' :: cs => (true, cs)
        | '+' :: cs => (false, cs)
        | cs => (false, cs)
      match leadingDigits cs with
      | ([], _) => none
      | (ds, []) => some (some (negative, ds))
      | _ => none
    else none

/-- Read a number without its sign. -/
def unsignedOf? (negative : Bool) (cs : List Char) : Option JsonNumber :=
  match leadingDigits cs with
  | ([], _) => none
  | (0 :: _ :: _, _) => none
  | (whole, '.' :: cs) =>
    match leadingDigits cs with
    | ([], _) => none
    | (fraction, cs) => (exponentOf? cs).map (⟨negative, whole, fraction, ·⟩)
  | (whole, cs) => (exponentOf? cs).map (⟨negative, whole, [], ·⟩)

/-- Read a number.  Superfluous zeros at the start are refused. -/
def ofChars? : List Char → Option JsonNumber
  | '-' :: cs => unsignedOf? true cs
  | cs => unsignedOf? false cs

/-- The natural number that is written as digits alone. -/
def natural? (n : JsonNumber) : Option Nat :=
  if !n.negative && n.fraction.isEmpty && n.exponent.isNone then some (numberOf 10 n.whole)
  else none

/-! ### The range of doubles -/

/-- The largest significand that is kept; digits that would exceed it are dropped. -/
def significandLimit : Nat := bound64 - 1

/-- Take up digits while the significand stays within its limit: the significand, and how many
digits were left over. -/
def absorb : (significand : Nat) → List Nat → Nat × Nat
  | n, [] => (n, 0)
  | n, d :: ds =>
    if n * 10 + d ≤ significandLimit then absorb (n * 10 + d) ds else (n, ds.length + 1)

/-- The significand and the power of ten of a number. -/
def scaled (n : JsonNumber) : Nat × Int :=
  let (s, dropped) := absorb 0 n.whole
  let (s, ignored) := absorb s n.fraction
  let exponent : Int :=
    match n.exponent with
    | none => 0
    | some (negative, ds) =>
      if negative then -(numberOf 10 ds : Int) else (numberOf 10 ds : Int)
  (s, exponent + dropped - (n.fraction.length - ignored : Nat))

/-- Whether reading a number as a double stays finite.  The significand and the power of ten are
rounded to doubles first and multiplied then; powers above `10 ^ 308` are infinite. -/
def isFinite (n : JsonNumber) : Bool :=
  let (s, e) := n.scaled
  if s = 0 ∨ e < 0 then true
  else if 308 < e then false
  else roundToDouble s * roundToDouble (tenToThe e.toNat) < overflowBound

end JsonNumber

end Sm83
