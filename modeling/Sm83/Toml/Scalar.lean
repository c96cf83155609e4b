import Sm83.Text.Numerals

/-!
# TOML scalars

Words that stand for numbers, truth values and dates.  Of the values other than texts and
integers only the kind is kept; they are checked all the same.

## Main definitions

* `TomlValue` — the values.
* `tomlInteger?`, `isTomlFloat`, `isTomlDate` — the kinds of words.
* `TomlValue.ofWord?` — the value of a word.
-/

namespace Sm83

/-- A value. -/
inductive TomlValue where
  | text (s : String)
  | integer (n : Int)
  | float
  | boolean
  | date
  | array
  | table
  deriving DecidableEq, Repr

/-! ### Numbers -/

/-- The value of a digit in a base up to 16. -/
def digitBelow? (base : Nat) (c : Char) : Option Nat :=
  (hexDigitValue? c).filter (· < base)

/-- Digits, between which single underscores may stand. -/
def groupedDigits? (base : Nat) : List Char → Option (List Nat)
  | [] => none
  | [c] => (digitBelow? base c).map ([·])
  | c :: '_' :: rest => do return (← digitBelow? base c) :: (← groupedDigits? base rest)
  | c :: rest => do return (← digitBelow? base c) :: (← groupedDigits? base rest)

/-- Decimal digits without superfluous zeros at the start. -/
def plainDigits? (cs : List Char) : Option (List Nat) :=
  (groupedDigits? 10 cs).filter fun ds => ds.length = 1 || ds.head? != some 0

/-- The sign of a number and what follows it; `true` stands for minus. -/
def signed : List Char → Bool × List Char
  | '+' :: cs => (false, cs)
  | '-' :: cs => (true, cs)
  | cs => (false, cs)

/-- An integer of any size. -/
def unboundedInteger? (cs : List Char) : Option Int :=
  match cs with
  | '0' :: 'x' :: cs => (groupedDigits? 16 cs).map fun ds => numberOf 16 ds
  | '0' :: 'o' :: cs => (groupedDigits? 8 cs).map fun ds => numberOf 8 ds
  | '0' :: 'b' :: cs => (groupedDigits? 2 cs).map fun ds => numberOf 2 ds
  | cs =>
    let (negative, cs) := signed cs
    (plainDigits? cs).map fun ds =>
      if negative then -(numberOf 10 ds : Int) else (numberOf 10 ds : Int)

/-- Whether 128 bits hold an integer, with a sign or without. -/
def fits128 (n : Int) : Bool :=
  -(1 <<< 127) ≤ n && n < 1 <<< 128

/-- An integer. -/
def tomlInteger? (cs : List Char) : Option Int :=
  (unboundedInteger? cs).filter fits128

/-- The exponent of a float, from the letter on. -/
def floatExponent? : List Char → Option Int
  | [] => some 0
  | c :: cs =>
    if c = 'e' ∨ c = 'E' then
      let (negative, cs) := signed cs
      (groupedDigits? 10 cs).map fun ds =>
        if negative then -(numberOf 10 ds : Int) else (numberOf 10 ds : Int)
    else none

/-- Whether a word is a float: it has a fraction or an exponent, and it does not overflow. -/
def isTomlFloat (word : List Char) : Bool :=
  let (_, cs) := signed word
  if cs = ['i', 'n', 'f'] ∨ cs = ['n', 'a', 'n'] then true
  else
    let isExponent (c : Char) : Bool := c = 'e' || c = 'E'
    let (whole, rest) := cs.span fun c => c != '.' && !isExponent c
    match rest with
    | [] => false
    | '.' :: rest =>
      let (fraction, rest) := rest.span (!isExponent ·)
      match plainDigits? whole, groupedDigits? 10 fraction, floatExponent? rest with
      | some whole, some fraction, some e =>
        roundsToFinite (numberOf 10 (whole ++ fraction)) (e - fraction.length)
      | _, _, _ => false
    | rest =>
      match plainDigits? whole, floatExponent? rest with
      | some whole, some e => roundsToFinite (numberOf 10 whole) e
      | _, _ => false

/-! ### Dates and times -/

/-- A number of exactly `width` digits, and what follows it. -/
def fixedNumber? (width : Nat) (cs : List Char) : Option (Nat × List Char) :=
  let ds := cs.take width
  if ds.length = width && ds.all Char.isDigit then
    some (numberOf 10 (ds.map fun c => c.toNat - 48), cs.drop width)
  else none

/-- The number of days of a month. -/
def daysOfMonth (year month : Nat) : Nat :=
  if month = 2 then
    if year % 4 = 0 ∧ (year % 100 ≠ 0 ∨ year % 400 = 0) then 29 else 28
  else if month = 4 ∨ month = 6 ∨ month = 9 ∨ month = 11 then 30
  else 31

/-- What follows a given character at the start of a text. -/
def behind? (c : Char) : List Char → Option (List Char)
  | [] => none
  | d :: cs => if c = d then some cs else none

/-- What follows a date at the start of a text. -/
def behindDate? (cs : List Char) : Option (List Char) := do
  let (year, cs) ← fixedNumber? 4 cs
  let (month, cs) ← fixedNumber? 2 (← behind? '-' cs)
  let (day, cs) ← fixedNumber? 2 (← behind? '-' cs)
  if 1 ≤ month ∧ month ≤ 12 ∧ 1 ≤ day ∧ day ≤ daysOfMonth year month then some cs else none

/-- What follows the fraction of a second, if there is one. -/
def behindFraction? : List Char → Option (List Char)
  | '.' :: c :: cs => if c.isDigit then some (cs.dropWhile Char.isDigit) else none
  | '.' :: [] => none
  | cs => some cs

/-- What follows a time of day at the start of a text.  The seconds may be left out. -/
def behindTime? (cs : List Char) : Option (List Char) := do
  let (hour, cs) ← fixedNumber? 2 cs
  let (minute, cs) ← fixedNumber? 2 (← behind? ':' cs)
  if hour < 24 ∧ minute < 60 then
    match cs with
    | ':' :: cs =>
      let (second, cs) ← fixedNumber? 2 cs
      if second ≤ 60 then behindFraction? cs else none
    | cs => some cs
  else none

/-- Whether a text is a distance from universal time, or empty. -/
def isOffset : List Char → Bool
  | [] => true
  | ['Z'] => true
  | ['z'] => true
  | c :: cs =>
    (c = '+' || c = '-') &&
      match fixedNumber? 2 cs with
      | some (hour, ':' :: cs) =>
        match fixedNumber? 2 cs with
        | some (minute, []) => hour < 24 && minute < 60
        | _ => false
      | _ => false

/-- Whether a word is a date, a time, or both. -/
def isTomlDate (cs : List Char) : Bool :=
  match behindDate? cs with
  | some [] => true
  | some (c :: cs) => (c = 'T' || c = 't' || c = ' ') && (behindTime? cs).any isOffset
  | none => (behindTime? cs).any List.isEmpty

/-- The value of a word. -/
def TomlValue.ofWord? (cs : List Char) : Option TomlValue :=
  if cs = ['t', 'r', 'u', 'e'] ∨ cs = ['f', 'a', 'l', 's', 'e'] then some .boolean
  else if let some n := tomlInteger? cs then some (.integer n)
  else if isTomlFloat cs then some .float
  else if isTomlDate cs then some .date
  else none

end Sm83
