import Sm83.Text.Numerals

/-!
# TOML tokens

The lexer goes over a text one character at a time.  Characters that are neither blanks,
punctuation nor quotes gather to a word; what a word means depends on where it stands.  Comments
leave no token.

## Main definitions

* `TomlToken` — the tokens.
* `unifyLineEnds?` — the text with every line ended by a line feed alone.
* `TomlLexer.feed`, `TomlLexer.finish` — one character, and the end of the text.
* `tomlTokens?` — the tokens of a text.
-/

namespace Sm83

/-- A token of TOML. -/
inductive TomlToken where
  | lineEnd
  | blank (c : Char)
  | dot
  | equals
  | comma
  | openBracket
  | closeBracket
  | openBrace
  | closeBrace
  /-- A string; `multi` tells whether it may span lines. -/
  | text (multi : Bool) (cs : List Char)
  | word (cs : List Char)
  deriving DecidableEq, Repr

/-- The token of a punctuation character. -/
def TomlToken.ofPunctuation? : Char → Option TomlToken
  | '\n' => some lineEnd
  | ' ' => some (blank ' ')
  | '\t' => some (blank '\t')
  | '.' => some dot
  | '=' => some equals
  | ',' => some comma
  | '[' => some openBracket
  | ']' => some closeBracket
  | '{' => some openBrace
  | '}' => some closeBrace
  | _ => none

/-- The text with every line ended by a line feed alone.  A carriage return elsewhere is
refused. -/
def unifyLineEnds? : List Char → Option (List Char)
  | [] => some []
  | '\r' :: '\n' :: cs => (unifyLineEnds? cs).map ('\n' :: ·)
  | c :: cs => if c = '\r' then none else (unifyLineEnds? cs).map (c :: ·)

/-- What the lexer is inside of; what was gathered is given backwards.  A string is known by its
quote character and by whether it may span lines. -/
inductive TomlState where
  /-- Between tokens. -/
  | between
  | comment
  | word (cs : List Char)
  /-- Behind one quote, or two. -/
  | opening (quote : Char) (second : Bool)
  /-- In a string on one line. -/
  | single (quote : Char) (cs : List Char)
  /-- At the start of a string over lines. -/
  | first (quote : Char)
  /-- In a string over lines, behind a number of quotes. -/
  | multi (quote : Char) (cs : List Char) (quotes : Nat)
  /-- Behind a backslash. -/
  | escape (multi : Bool) (cs : List Char)
  /-- In an escaped code point: the digits that are missing, and the value of those read. -/
  | code (multi : Bool) (cs : List Char) (missing value : Nat)
  /-- Behind a backslash that joins lines. -/
  | join (cs : List Char) (lineSeen : Bool)

/-- The lexer: its tokens so far, backwards, and what it is inside of. -/
structure TomlLexer where
  tokens : List TomlToken := []
  state : TomlState := .between

/-- Whether a character may stand in comments and strings. -/
def isTomlPrintable (c : Char) : Bool :=
  c = '\t' || (0x20 ≤ c.toNat && c.toNat ≠ 0x7F)

/-- The character that an escape of one letter stands for. -/
def tomlEscape? : Char → Option Char
  | '"' => some '"'
  | '\\' => some '\\'
  | 'b' => some '\x08'
  | 'e' => some '\x1b'
  | 'f' => some '\x0c'
  | 'n' => some '\n'
  | 'r' => some '\r'
  | 't' => some '\t'
  | _ => none

/-- The digits of an escaped code point, by the letter behind the backslash. -/
def tomlCodeDigits? : Char → Option Nat
  | 'x' => some 2
  | 'u' => some 4
  | 'U' => some 8
  | _ => none

/-- The character with a code point, if there is one. -/
def charOf? (n : Nat) : Option Char :=
  if n < 0xD800 ∨ (0xE000 ≤ n ∧ n < 0x110000) then some (Char.ofNat n) else none

namespace TomlLexer

/-- Take a character between tokens. -/
def feedBetween (tokens : List TomlToken) (c : Char) : TomlLexer :=
  match TomlToken.ofPunctuation? c with
  | some t => ⟨t :: tokens, .between⟩
  | none =>
    if c = '#' then ⟨tokens, .comment⟩
    else if c = '"' ∨ c = '\'' then ⟨tokens, .opening c false⟩
    else ⟨tokens, .word [c]⟩

/-- Whether a character ends a word. -/
def endsWord (c : Char) : Bool :=
  (TomlToken.ofPunctuation? c).isSome || c = '#' || c = '"' || c = '\''

/-- The string state behind an escape. -/
def resume (multi : Bool) (cs : List Char) : TomlState :=
  if multi then .multi '"' cs 0 else .single '"' cs

/-- Take a character of a string on one line. -/
def feedSingle (tokens : List TomlToken) (quote : Char) (cs : List Char) (c : Char) :
    Option TomlLexer :=
  if c = quote then some ⟨.text false cs.reverse :: tokens, .between⟩
  else if quote = '"' ∧ c = '\\' then some ⟨tokens, .escape false cs⟩
  else if isTomlPrintable c then some ⟨tokens, .single quote (c :: cs)⟩
  else none

/-- Take a character of a string over lines that does not end it. -/
def feedMulti (tokens : List TomlToken) (quote : Char) (cs : List Char) (c : Char) :
    Option TomlLexer :=
  if quote = '"' ∧ c = '\\' then some ⟨tokens, .escape true cs⟩
  else if c = '\n' ∨ isTomlPrintable c then some ⟨tokens, .multi quote (c :: cs) 0⟩
  else none

/-- Take a character behind a backslash. -/
def feedEscape (tokens : List TomlToken) (multi : Bool) (cs : List Char) (c : Char) :
    Option TomlLexer :=
  match tomlEscape? c, tomlCodeDigits? c with
  | some e, _ => some ⟨tokens, resume multi (e :: cs)⟩
  | none, some digits => some ⟨tokens, .code multi cs (digits - 1) 0⟩
  | none, none =>
    if multi ∧ (c = ' ' ∨ c = '\t') then some ⟨tokens, .join cs false⟩
    else if multi ∧ c = '\n' then some ⟨tokens, .join cs true⟩
    else none

/-- Take one character.  A string over lines ends with three quotes, and up to two more in front
of them belong to it. -/
def feed (l : TomlLexer) (c : Char) : Option TomlLexer :=
  match l.state with
  | .between => some (feedBetween l.tokens c)
  | .comment =>
    if c = '\n' then some (feedBetween l.tokens c)
    else if isTomlPrintable c then some l
    else none
  | .word cs =>
    if endsWord c then some (feedBetween (.word cs.reverse :: l.tokens) c)
    else some ⟨l.tokens, .word (c :: cs)⟩
  | .opening quote false =>
    if c = quote then some ⟨l.tokens, .opening quote true⟩ else feedSingle l.tokens quote [] c
  | .opening quote true =>
    if c = quote then some ⟨l.tokens, .first quote⟩
    else some (feedBetween (.text false [] :: l.tokens) c)
  | .single quote cs => feedSingle l.tokens quote cs c
  | .first quote =>
    if c = '\n' then some ⟨l.tokens, .multi quote [] 0⟩
    else if c = quote then some ⟨l.tokens, .multi quote [] 1⟩
    else feedMulti l.tokens quote [] c
  | .multi quote cs quotes =>
    if c = quote then
      if quotes = 4 then some ⟨.text true (quote :: quote :: cs).reverse :: l.tokens, .between⟩
      else some ⟨l.tokens, .multi quote cs (quotes + 1)⟩
    else if 3 ≤ quotes then
      some
        (feedBetween (.text true (List.replicate (quotes - 3) quote ++ cs).reverse :: l.tokens) c)
    else feedMulti l.tokens quote (List.replicate quotes quote ++ cs) c
  | .escape multi cs => feedEscape l.tokens multi cs c
  | .code multi cs missing value => do
    let d ← hexDigitValue? c
    if missing = 0 then
      let e ← charOf? (value * 16 + d)
      some ⟨l.tokens, resume multi (e :: cs)⟩
    else some ⟨l.tokens, .code multi cs (missing - 1) (value * 16 + d)⟩
  | .join cs lineSeen =>
    if c = '\n' then some ⟨l.tokens, .join cs true⟩
    else if c = ' ' ∨ c = '\t' then some ⟨l.tokens, .join cs lineSeen⟩
    else if lineSeen then
      if c = '"' then some ⟨l.tokens, .multi '"' cs 1⟩ else feedMulti l.tokens '"' cs c
    else none

/-- Take the end of the text. -/
def finish (l : TomlLexer) : Option (List TomlToken) :=
  match l.state with
  | .between | .comment => some l.tokens.reverse
  | .word cs => some (.word cs.reverse :: l.tokens).reverse
  | .opening _ true => some (.text false [] :: l.tokens).reverse
  | .multi quote cs quotes =>
    if 3 ≤ quotes then
      some (.text true (List.replicate (quotes - 3) quote ++ cs).reverse :: l.tokens).reverse
    else none
  | _ => none

end TomlLexer

/-- The tokens of a text.  A byte order mark at its start is skipped. -/
def tomlTokens? (cs : List Char) : Option (List TomlToken) := do
  let cs := if cs.head? = some '\uFEFF' then cs.tail else cs
  let cs ← unifyLineEnds? cs
  (← cs.foldlM TomlLexer.feed {}).finish

end Sm83
