import Sm83.Json.Basic
import Sm83.Text.Numerals

/-!
# JSON tokens

The lexer goes over a text one character at a time.  Characters that are neither blanks,
punctuation nor quotes gather to a word, which has to be a literal name or a number when it ends.

## Main definitions

* `JsonToken` — the tokens.
* `JsonLexer.feed`, `JsonLexer.finish` — one character, and the end of the text.
* `jsonTokens?` — the tokens of a text.
-/

namespace Sm83

/-- A token of JSON. -/
inductive JsonToken where
  | openArray
  | closeArray
  | openObject
  | closeObject
  | comma
  | colon
  | null
  | bool (b : Bool)
  | number (n : JsonNumber)
  | string (units : List TextUnit)
  deriving DecidableEq, Repr

namespace JsonToken

/-- The token of a punctuation character. -/
def ofPunctuation? : Char → Option JsonToken
  | '[' => some openArray
  | ']' => some closeArray
  | '{' => some openObject
  | '}' => some closeObject
  | ',' => some comma
  | ':' => some colon
  | _ => none

/-- The token of a word. -/
def ofWord? (word : List Char) : Option JsonToken :=
  if word = ['n', 'u', 'l', 'l'] then some null
  else if word = ['t', 'r', 'u', 'e'] then some (bool true)
  else if word = ['f', 'a', 'l', 's', 'e'] then some (bool false)
  else (JsonNumber.ofChars? word).map number

end JsonToken

/-- What the lexer is inside of; what was gathered is given backwards. -/
inductive LexerState where
  /-- Between tokens. -/
  | between
  /-- In a word. -/
  | word (cs : List Char)
  /-- In a string. -/
  | string (units : List TextUnit)
  /-- In a string, behind a backslash. -/
  | escape (units : List TextUnit)
  /-- In an escaped code unit: the digits that are missing, and the value of those read. -/
  | code (units : List TextUnit) (missing value : Nat)

/-- The lexer: its tokens so far, backwards, and what it is inside of. -/
structure JsonLexer where
  tokens : List JsonToken := []
  state : LexerState := .between

/-- Whether a character may stand between tokens. -/
def isJsonBlank (c : Char) : Bool :=
  c = ' ' || c = '\t' || c = '\n' || c = '\r'

/-- The character that an escape of one letter stands for. -/
def jsonEscape? : Char → Option Char
  | '"' => some '"'
  | '\\' => some '\\'
  | '/' => some '/'
  | 'b' => some '\x08'
  | 'f' => some '\x0c'
  | 'n' => some '\n'
  | 'r' => some '\r'
  | 't' => some '\t'
  | _ => none

namespace JsonLexer

/-- Take a character between tokens. -/
def feedBetween (tokens : List JsonToken) (c : Char) : JsonLexer :=
  if isJsonBlank c then ⟨tokens, .between⟩
  else if c = '"' then ⟨tokens, .string []⟩
  else
    match JsonToken.ofPunctuation? c with
    | some t => ⟨t :: tokens, .between⟩
    | none => ⟨tokens, .word [c]⟩

/-- Whether a character ends a word. -/
def endsWord (c : Char) : Bool :=
  isJsonBlank c || c = '"' || (JsonToken.ofPunctuation? c).isSome

/-- Take one character. -/
def feed (l : JsonLexer) (c : Char) : Option JsonLexer :=
  match l.state with
  | .between => some (feedBetween l.tokens c)
  | .word cs =>
    if endsWord c then
      (JsonToken.ofWord? cs.reverse).map fun t => feedBetween (t :: l.tokens) c
    else some ⟨l.tokens, .word (c :: cs)⟩
  | .string units =>
    if c = '"' then some ⟨.string units.reverse :: l.tokens, .between⟩
    else if c = '\\' then some ⟨l.tokens, .escape units⟩
    else if c.toNat < 0x20 then none
    else some ⟨l.tokens, .string (.char c :: units)⟩
  | .escape units =>
    if c = 'u' then some ⟨l.tokens, .code units 3 0⟩
    else (jsonEscape? c).map fun e => ⟨l.tokens, .string (.char e :: units)⟩
  | .code units missing value =>
    (hexDigitValue? c).map fun d =>
      if missing = 0 then ⟨l.tokens, .string (.code (value * 16 + d) :: units)⟩
      else ⟨l.tokens, .code units (missing - 1) (value * 16 + d)⟩

/-- Take the end of the text. -/
def finish (l : JsonLexer) : Option (List JsonToken) :=
  match l.state with
  | .between => some l.tokens.reverse
  | .word cs => (JsonToken.ofWord? cs.reverse).map fun t => (t :: l.tokens).reverse
  | _ => none

end JsonLexer

/-- The tokens of a text. -/
def jsonTokens? (cs : List Char) : Option (List JsonToken) :=
  (cs.foldlM JsonLexer.feed {}).bind JsonLexer.finish

end Sm83
