/-!
# Lines

A text is cut into lines at line feeds.  A carriage return before a line feed belongs to the
line's end; one at the end of the text does not.  An empty last line is none.  What a line says is
freed from the blanks at its ends, and cut to a number of UTF-8 bytes without breaking a
character; blanks are the characters with the Unicode property `White_Space`.

## Main definitions

* `lines` — the lines of a text.
* `isBlank` — membership in `White_Space`.
* `trim` — a text without blanks at its ends.
* `byteLength` — the bytes of a text in UTF-8.
* `clip` — the longest start of a text that fits a number of bytes.

## Main results

* `lines_append_lineFeed` — a line feed separates what comes before it from what follows.
-/

namespace Sm83

/-! ### Cutting at line feeds -/

/-- A line, given backwards, without a carriage return at its end. -/
def withoutReturn : List Char → List Char
  | '\r' :: cs => cs
  | cs => cs

/-- The lines of a text that continues a line, of which the characters so far are given
backwards. -/
def linesFrom (sofar : List Char) : List Char → List (List Char)
  | [] => if sofar.isEmpty then [] else [sofar.reverse]
  | '\n' :: cs => (withoutReturn sofar).reverse :: linesFrom [] cs
  | c :: cs => linesFrom (c :: sofar) cs

/-- The lines of a text. -/
def lines (cs : List Char) : List (List Char) :=
  linesFrom [] cs

theorem linesFrom_append_lineFeed (sofar a b : List Char) :
    linesFrom sofar (a ++ '\n' :: b) = linesFrom sofar (a ++ ['\n']) ++ lines b := by
  fun_induction linesFrom sofar a with
  | case1 => simp [linesFrom, lines]
  | case2 => simp [linesFrom, lines]
  | case3 sofar cs ih => simp [linesFrom, ih]
  | case4 sofar c cs h ih =>
    rw [List.cons_append, List.cons_append, linesFrom, linesFrom, ih]
    all_goals exact h

/-- A line feed separates what comes before it from what follows. -/
theorem lines_append_lineFeed (a b : List Char) :
    lines (a ++ '\n' :: b) = lines (a ++ ['\n']) ++ lines b :=
  linesFrom_append_lineFeed [] a b

/-! ### White space -/

/-- The ranges of code points with the property `White_Space`. -/
def blankRanges : List (Nat × Nat) :=
  [(0x09, 0x0D), (0x20, 0x20), (0x85, 0x85), (0xA0, 0xA0), (0x1680, 0x1680), (0x2000, 0x200A),
    (0x2028, 0x2029), (0x202F, 0x202F), (0x205F, 0x205F), (0x3000, 0x3000)]

/-- Whether a character is white space. -/
def isBlank (c : Char) : Bool :=
  blankRanges.any fun (first, last) => first ≤ c.toNat && c.toNat ≤ last

/-- The text without the blanks at its start. -/
def trimStart (cs : List Char) : List Char :=
  cs.dropWhile isBlank

/-- The text without the blanks at its end. -/
def trimEnd (cs : List Char) : List Char :=
  (cs.reverse.dropWhile isBlank).reverse

/-- The text without the blanks at its ends. -/
def trim (cs : List Char) : List Char :=
  trimEnd (trimStart cs)

/-! ### Clipping -/

/-- The number of bytes of a text in UTF-8. -/
def byteLength : List Char → Nat
  | [] => 0
  | c :: cs => c.utf8Size + byteLength cs

/-- The longest start of a text that has at most `max` bytes. -/
def clip : (max : Nat) → List Char → List Char
  | _, [] => []
  | max, c :: cs => if c.utf8Size ≤ max then c :: clip (max - c.utf8Size) cs else []

end Sm83
