import Sm83.Toml.Scalar

/-!
# Definitions in a TOML document

A document defines names, and no name twice.  Tables come into being in several ways, and the
way decides what may be added to them later: a table that was opened by its own header, or that
is written as a value, cannot be extended by dotted keys.

## Main definitions

* `TomlPath` — the path of a definition.
* `TomlEntry` — what is defined at a path.
* `TomlScope` — the definitions so far, and the table that is open.
* `TomlScope.define?`, `TomlScope.openTable?`, `TomlScope.openItem?` — the effects of the lines of
  a document.
-/

namespace Sm83

/-- A step of a path: into a table by a key, or into an array of tables by a position. -/
inductive TomlStep where
  | key (name : List Char)
  | item (i : Nat)
  deriving DecidableEq, Repr

/-- The path of a definition. -/
abbrev TomlPath := List TomlStep

/-- How a table came into being. -/
inductive TableOrigin where
  /-- By its own header, or as an item of an array of tables. -/
  | header
  /-- On the way to the table of a header. -/
  | implied
  /-- On the way to the last name of a dotted key. -/
  | dotted
  deriving DecidableEq, Repr

/-- What is defined at a path. -/
inductive TomlEntry where
  | value (v : TomlValue)
  | table (origin : TableOrigin)
  /-- An array of tables, with their number. -/
  | tables (n : Nat)
  deriving DecidableEq, Repr

/-- The definitions so far, and the path of the table that is open. -/
structure TomlScope where
  entries : List (TomlPath × TomlEntry) := [([], .table .header)]
  current : TomlPath := []
  deriving Repr

namespace TomlScope

/-- What is defined at a path. -/
def find? (s : TomlScope) (path : TomlPath) : Option TomlEntry :=
  s.entries.lookup path

/-- Define a path, or define it anew. -/
def put (s : TomlScope) (path : TomlPath) (e : TomlEntry) : TomlScope :=
  { s with entries := (path, e) :: s.entries }

/-- The path of a table inside the one at `here`, found or made on the way to a header's
table. -/
def enter? (s : TomlScope) (here : TomlPath) (name : List Char) : Option (TomlPath × TomlScope) :=
  let path := here ++ [.key name]
  match s.find? path with
  | none => some (path, s.put path (.table .implied))
  | some (.table _) => some (path, s)
  | some (.tables n) => some (path ++ [.item (n - 1)], s)
  | some (.value _) => none

/-- The path of a table inside the one at `here`, found or made on the way to the last name of a
dotted key. -/
def enterDotted? (s : TomlScope) (here : TomlPath) (name : List Char) :
    Option (TomlPath × TomlScope) :=
  let path := here ++ [.key name]
  match s.find? path with
  | none => some (path, s.put path (.table .dotted))
  | some (.table .header) => none
  | some (.table _) => some (path, s)
  | some (.tables _) => none
  | some (.value _) => none

/-- Follow all names but the last by a rule: the path reached, the last name, and the scope. -/
def follow? (rule : TomlScope → TomlPath → List Char → Option (TomlPath × TomlScope))
    (s : TomlScope) (here : TomlPath) : List (List Char) → Option (TomlPath × List Char × TomlScope)
  | [] => none
  | [name] => some (here, name, s)
  | name :: names => do
    let (there, s) ← rule s here name
    follow? rule s there names

/-- Define a dotted key in the open table. -/
def define? (s : TomlScope) (names : List (List Char)) (v : TomlValue) : Option TomlScope := do
  let (here, name, s) ← follow? enterDotted? s s.current names
  let path := here ++ [.key name]
  if names.length > 1 && s.find? here != some (.table .dotted) then none
  else if (s.find? path).isSome then none
  else some (s.put path (.value v))

/-- Open the table of a header. -/
def openTable? (s : TomlScope) (names : List (List Char)) : Option TomlScope := do
  let (here, name, s) ← follow? enter? s [] names
  let path := here ++ [.key name]
  match s.find? path with
  | none | some (.table .implied) => some { s.put path (.table .header) with current := path }
  | _ => none

/-- Open a further item of an array of tables. -/
def openItem? (s : TomlScope) (names : List (List Char)) : Option TomlScope := do
  let (here, name, s) ← follow? enter? s [] names
  let path := here ++ [.key name]
  let n ← match s.find? path with
    | none => some 0
    | some (.tables n) => some n
    | _ => none
  let item := path ++ [.item n]
  some { (s.put path (.tables (n + 1))).put item (.table .header) with current := item }

/-- What is defined at a name of the outermost table. -/
def top? (s : TomlScope) (name : String) : Option TomlEntry :=
  s.find? [.key name.toList]

end TomlScope

end Sm83
