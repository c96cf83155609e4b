import Sm83.Toml.Scope
import Sm83.Toml.Token

/-!
# Reading TOML

A document is read line by line: keys with their values, and headers of tables.  Arrays and
tables written as values may span lines.  They are nested at most `tomlDepth` deep, which bounds
the recursion together with the number of tokens.

## Main definitions

* `tomlKey?` — a dotted key.
* `tomlValue?` — a value.
* `tomlDocument?` — the definitions of a document.
-/

namespace Sm83

/-- The tokens without the blanks at their start. -/
def skipBlanks (ts : List TomlToken) : List TomlToken :=
  ts.dropWhile fun t => t matches .blank _

/-- The tokens without the blanks and line ends at their start. -/
def skipLines (ts : List TomlToken) : List TomlToken :=
  ts.dropWhile fun t => t matches .blank _ | .lineEnd

/-- Whether a character may stand in a key without quotes. -/
def isBareKey (c : Char) : Bool :=
  c.isAlphanum || c = '_' || c = '-'

/-- One name of a key. -/
def tomlName? : TomlToken → Option (List Char)
  | .word cs => if cs.all isBareKey then some cs else none
  | .text false cs => some cs
  | _ => none

/-- A dotted key, and the tokens behind it and the blanks that follow.  `fuel` bounds the number
of its names. -/
def keyFrom? : (fuel : Nat) → List TomlToken → Option (List (List Char) × List TomlToken)
  | 0, _ => none
  | fuel + 1, ts =>
    match skipBlanks ts with
    | [] => none
    | t :: ts => do
      let name ← tomlName? t
      match skipBlanks ts with
      | .dot :: ts => do
        let (names, ts) ← keyFrom? fuel ts
        return (name :: names, ts)
      | ts => return ([name], ts)

/-- A dotted key, and the tokens behind it and the blanks that follow. -/
def tomlKey? (ts : List TomlToken) : Option (List (List Char) × List TomlToken) :=
  keyFrom? ts.length ts

/-- The characters of adjacent words and dots, and the tokens behind them. -/
def joinedWord : List TomlToken → List Char × List TomlToken
  | .word cs :: ts =>
    let (rest, ts) := joinedWord ts
    (cs ++ rest, ts)
  | .dot :: ts =>
    let (rest, ts) := joinedWord ts
    ('.' :: rest, ts)
  | ts => ([], ts)

/-- The value of a word.  A blank may join a date with a time. -/
def scalar? (ts : List TomlToken) : Option (TomlValue × List TomlToken) :=
  let (cs, rest) := joinedWord ts
  match rest with
  | .blank ' ' :: .word (c :: _) :: _ =>
    if c.isDigit && behindDate? cs == some [] then
      let (time, rest) := joinedWord rest.tail
      (TomlValue.ofWord? (cs ++ ' ' :: time)).map (·, rest)
    else (TomlValue.ofWord? cs).map (·, rest)
  | _ => (TomlValue.ofWord? cs).map (·, rest)

/-- Arrays and tables written as values are nested less deep than this. -/
def tomlDepth : Nat := 80

mutual

/-- A value, and the tokens behind it. -/
def valueFrom? : (fuel depth : Nat) → List TomlToken → Option (TomlValue × List TomlToken)
  | 0, _, _ => none
  | fuel + 1, depth, ts =>
    match ts with
    | .text _ cs :: ts => some (.text (String.ofList cs), ts)
    | .openBracket :: ts => if depth ≤ 1 then none else itemsFrom? fuel (depth - 1) ts
    | .openBrace :: ts => if depth ≤ 1 then none else membersFrom? fuel (depth - 1) {} ts
    | .word _ :: _ => scalar? ts
    | _ => none

/-- The items of an array up to its end. -/
def itemsFrom? : (fuel depth : Nat) → List TomlToken → Option (TomlValue × List TomlToken)
  | 0, _, _ => none
  | fuel + 1, depth, ts =>
    match skipLines ts with
    | .closeBracket :: ts => some (.array, ts)
    | ts => do
      let (_, ts) ← valueFrom? fuel depth ts
      match skipLines ts with
      | .closeBracket :: ts => some (.array, ts)
      | .comma :: ts => itemsFrom? fuel depth ts
      | _ => none

/-- The members of a table written as a value up to its end.  Its names are defined in a scope of
their own. -/
def membersFrom? : (fuel depth : Nat) → TomlScope → List TomlToken →
    Option (TomlValue × List TomlToken)
  | 0, _, _, _ => none
  | fuel + 1, depth, scope, ts =>
    match skipLines ts with
    | .closeBrace :: ts => some (.table, ts)
    | ts => do
      let (names, ts) ← tomlKey? ts
      match ts with
      | .equals :: ts => do
        let (v, ts) ← valueFrom? fuel depth (skipBlanks ts)
        let scope ← scope.define? names v
        match skipLines ts with
        | .closeBrace :: ts => some (.table, ts)
        | .comma :: ts => membersFrom? fuel depth scope ts
        | _ => none
      | _ => none

end

/-- A value, and the tokens behind it. -/
def tomlValue? (ts : List TomlToken) : Option (TomlValue × List TomlToken) :=
  valueFrom? (ts.length + 1) tomlDepth (skipBlanks ts)

/-- The tokens behind the end of a line. -/
def lineRest? (ts : List TomlToken) : Option (List TomlToken) :=
  match skipBlanks ts with
  | [] => some []
  | .lineEnd :: ts => some ts
  | _ => none

/-- Read a line that is not empty: the scope after it, and the tokens behind its end. -/
def tomlLine? (scope : TomlScope) : List TomlToken → Option (TomlScope × List TomlToken)
  | .openBracket :: .openBracket :: ts => do
    let (names, ts) ← tomlKey? ts
    match ts with
    | .closeBracket :: .closeBracket :: ts => return (← scope.openItem? names, ← lineRest? ts)
    | _ => none
  | .openBracket :: ts => do
    let (names, ts) ← tomlKey? ts
    match ts with
    | .closeBracket :: ts => return (← scope.openTable? names, ← lineRest? ts)
    | _ => none
  | ts => do
    let (names, ts) ← tomlKey? ts
    match ts with
    | .equals :: ts => do
      let (v, ts) ← tomlValue? ts
      return (← scope.define? names v, ← lineRest? ts)
    | _ => none

/-- Read lines; `fuel` bounds their number. -/
def tomlLines? : (fuel : Nat) → TomlScope → List TomlToken → Option TomlScope
  | 0, _, _ => none
  | fuel + 1, scope, ts =>
    match skipLines ts with
    | [] => some scope
    | ts => do
      let (scope, ts) ← tomlLine? scope ts
      tomlLines? fuel scope ts

/-- The definitions of a document. -/
def tomlDocument? (cs : List Char) : Option TomlScope := do
  let ts ← tomlTokens? cs
  tomlLines? (ts.length + 1) {} ts

end Sm83
