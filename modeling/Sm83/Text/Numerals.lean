/-!
# Numerals

Numbers as texts of digits.  Hexadecimal numbers are written in upper case with a fixed least
width, and read in either case with an upper bound on their value; decimal numbers are written
with the fewest digits.  Whether a double holds the number that a numeral denotes is decided in
exact arithmetic.

## Main definitions

* `hexNumeral width n` — the numeral of `n`, padded with zeros to `width` digits.
* `hexDigitValue?` — the value of one hexadecimal digit.
* `readHex? bound cs` — the number that a hexadecimal text denotes, provided it is below `bound`.
* `decimal n` — the decimal numeral of an integer.
* `numberOf base ds` — the number with the given digits, the first one highest.
* `leadingDigits` — the decimal digits at the start of a text.
* `bound64` — the bound of the numbers of 64 bits.
* `readDecimal? bound cs` — the number that a decimal text denotes, provided it is below `bound`.
* `overflowBound` — the least number that rounds to infinity.
* `roundToDouble` — the nearest number with 53 significant bits.
* `roundsToFinite s e` — whether the double nearest to `s * 10 ^ e` is finite.
-/

namespace Sm83

/-! ### Hexadecimal numerals -/

/-- The upper-case digit of a number below 16. -/
def hexDigit (n : Nat) : Char :=
  if n < 10 then Char.ofNat (48 + n) else Char.ofNat (55 + n)

/-- The last `width` hexadecimal digits of `n`, in front of `tail`. -/
def hexDigitsOnto : (width n : Nat) → (tail : List Char) → List Char
  | 0, _, tail => tail
  | width + 1, n, tail => hexDigitsOnto width (n / 16) (hexDigit (n % 16) :: tail)

/-- The last `width` hexadecimal digits of `n`, leading zeros included. -/
def hexNumeral (width n : Nat) : String :=
  String.ofList (hexDigitsOnto width n [])

/-- Two hexadecimal digits. -/
def hexByte (b : UInt8) : String :=
  hexNumeral 2 b.toNat

/-- Four hexadecimal digits. -/
def hexWord (w : UInt16) : String :=
  hexNumeral 4 w.toNat

/-- The value of a hexadecimal digit in either case. -/
def hexDigitValue? (c : Char) : Option Nat :=
  if '0' ≤ c ∧ c ≤ '9' then some (c.toNat - 48)
  else if 'a' ≤ c ∧ c ≤ 'f' then some (c.toNat - 87)
  else if 'A' ≤ c ∧ c ≤ 'F' then some (c.toNat - 55)
  else none

/-- Continue reading digits after a number whose digits so far denote `n`; every value on the
way has to stay below `bound`. -/
def readHexOnto? (bound : Nat) : (n : Nat) → List Char → Option Nat
  | n, [] => some n
  | n, c :: cs => do
    let d ← hexDigitValue? c
    if n * 16 + d < bound then readHexOnto? bound (n * 16 + d) cs else none

/-- The number denoted by a non-empty text of digits, which a single plus sign may precede.
Leading zeros are free; a value of `bound` or more is refused. -/
def readHex? (bound : Nat) : List Char → Option Nat
  | [] => none
  | ['+'] => none
  | '+' :: cs => readHexOnto? bound 0 cs
  | cs => readHexOnto? bound 0 cs

/-! ### Decimal numerals -/

/-- The decimal numeral of an integer. -/
def decimal : Int → String
  | .ofNat n => Nat.repr n
  | .negSucc n => "-" ++ Nat.repr (n + 1)

/-- The number that digits denote. -/
def numberOf (base : Nat) (ds : List Nat) : Nat :=
  ds.foldl (fun n d => n * base + d) 0

/-- The digits at the start of a text, and the rest. -/
def leadingDigits (cs : List Char) : List Nat × List Char :=
  ((cs.takeWhile Char.isDigit).map fun c => c.toNat - 48, cs.dropWhile Char.isDigit)

/-- The least number that does not fit 64 bits. -/
def bound64 : Nat := 0x1_0000_0000_0000_0000

/-- The number below `bound` that a text of digits denotes.  A single plus sign may precede the
digits. -/
def readDecimal? (bound : Nat) (cs : List Char) : Option Nat :=
  let cs :=
    match cs with
    | '+' :: cs => cs
    | cs => cs
  match leadingDigits cs with
  | ([], _) => none
  | (ds, []) => if numberOf 10 ds < bound then some (numberOf 10 ds) else none
  | _ => none

/-! ### The range of doubles -/

/-- Numbers from here on round to infinity. -/
def overflowBound : Nat := (1 <<< 1024) - (1 <<< 970)

/-- A power of ten. -/
def tenToThe (e : Nat) : Nat :=
  Nat.pow 10 e

/-- The nearest multiple of `2 ^ k` to a number; of two equally near ones the even multiple. -/
def roundToMultiple (k n : Nat) : Nat :=
  let unit := 1 <<< k
  let q := n / unit
  let r := n % unit
  let up := unit < 2 * r || (unit == 2 * r && q % 2 == 1)
  (if up then q + 1 else q) * unit

/-- The nearest number with 53 significant bits. -/
def roundToDouble (n : Nat) : Nat :=
  roundToMultiple (Nat.log2 n - 52) n

/-- Whether the double nearest to `s * 10 ^ e` is finite.  Exponents that settle the question
alone are not raised to a power. -/
def roundsToFinite (s : Nat) (e : Int) : Bool :=
  if s = 0 then true
  else if 400 < e then false
  else if 0 ≤ e then s * tenToThe e.toNat < overflowBound
  else if s.log2 < (-e).toNat then true
  else s < overflowBound * tenToThe (-e).toNat

end Sm83
