import Sm83.Conformance.Case
import Sm83.Files.Access
import Sm83.Json.Reader

/-!
# Files of conformance cases

A file is a JSON array of cases.  Cases and snapshots are objects with known members, or arrays
of the members in a fixed order.  Members that are not known are skipped, however they look
inside; a known one must not be given twice.

## Main definitions

* `fields?` — the known members of a structure.
* `Snapshot.ofJson?`, `ConformanceCase.ofJson?` — the structures.
* `CasesReader` — the readings of texts as cases, of which `readCases?` is that of JSON.
* `loadCases` — the cases of a file.
-/

namespace Sm83

/-- The members of an object with the texts of their keys. -/
def keyed? (members : List (List TextUnit × Json)) : Option (List (List Char × Json)) :=
  members.mapM fun (key, j) => (textOf? key).map (·, j)

/-- The member with a given key; giving it twice is refused. -/
def lookupOnce? (members : List (List Char × Json)) (name : String) : Option (Option Json) :=
  match members.filter (·.1 == name.toList) with
  | [] => some none
  | [(_, j)] => some (some j)
  | _ => none

/-- The values of the known members of a structure, in the order of their names. -/
def fields? (names : List String) : Json → Option (List (Option Json))
  | .object members => do
    let members ← keyed? members
    names.mapM (lookupOnce? members)
  | .array items =>
    if items.length ≤ names.length then
      some (items.map some ++ List.replicate (names.length - items.length) none)
    else none
  | _ => none

/-- A number below a bound. -/
def Json.below? (bound : Nat) : Json → Option Nat
  | .number n => n.natural?.filter (· < bound)
  | _ => none

/-- A byte. -/
def Json.byte? (j : Json) : Option UInt8 :=
  (j.below? 0x100).map UInt8.ofNat

/-- A word. -/
def Json.word? (j : Json) : Option UInt16 :=
  (j.below? 0x10000).map UInt16.ofNat

/-- A byte that may be left out or null. -/
def optionalByte? : Option Json → Option (Option UInt8)
  | none => some none
  | some .null => some none
  | some j => j.byte?.map some

/-- An address with its byte. -/
def ramPair? : Json → Option (UInt16 × UInt8)
  | .array [addr, v] => do return (← addr.word?, ← v.byte?)
  | _ => none

/-- A list that may be left out. -/
def optionalList? : Option Json → Option (List Json)
  | none => some []
  | some (.array items) => some items
  | some _ => none

/-- A snapshot. -/
def Snapshot.ofJson? (j : Json) : Option Snapshot :=
  match fields?
    ["pc", "sp", "a", "b", "c", "d", "e", "f", "h", "l", "ime", "ie", "ei", "ram"] j with
  | some [some pc, some sp, some a, some b, some c, some d, some e, some f, some h, some l,
      some ime, ie, ei, ram] => do
    return {
      pc := ← pc.word?, sp := ← sp.word?
      a := ← a.byte?, b := ← b.byte?, c := ← c.byte?, d := ← d.byte?, e := ← e.byte?
      f := ← f.byte?, h := ← h.byte?, l := ← l.byte?, ime := ← ime.byte?
      ie := ← optionalByte? ie, ei := ← optionalByte? ei
      ram := ← (← optionalList? ram).mapM ramPair? }
  | _ => none

/-- The nesting allowed inside the list of machine cycles. -/
def cycleDepth : Nat := 124

/-- A case.  Of the machine cycles only the number counts, but each has to be a sound value. -/
def ConformanceCase.ofJson? (j : Json) : Option ConformanceCase :=
  match fields? ["name", "initial", "final", "cycles"] j with
  | some [some (.string name), some initial, some expected, cycles] => do
    let name ← textOf? name
    let cycles ← (optionalList? cycles).filter (itemsSound cycleDepth)
    return ⟨String.ofList name, ← Snapshot.ofJson? initial, ← Snapshot.ofJson? expected,
      cycles.length⟩
  | _ => none

/-- A way to read texts: the cases that a text gives, or `none` if it is refused. -/
abbrev CasesReader :=
  String → Option (List ConformanceCase)

/-- The cases that a text gives as JSON. -/
def readCases? (text : String) : Option (List ConformanceCase) :=
  match Json.parse? text.toList with
  | some (.array items) => items.mapM ConformanceCase.ofJson?
  | _ => none

/-- The reasons for which a file gives no cases. -/
inductive CasesError where
  /-- It cannot be read. -/
  | file (e : FileError)
  /-- Its text is not a list of cases. -/
  | json (path : String)
  deriving DecidableEq, Repr

/-- The text of an error. -/
def CasesError.message : CasesError → String
  | file e => e.message
  | json path => "failed to parse " ++ path ++ ": not a list of conformance cases"

/-- The cases that a file gives, read as JSON unless another way is given. -/
def loadCases {m : Type → Type} [Monad m] [FileAccess m] (path : String)
    (read? : CasesReader := readCases?) : m (Except CasesError (List ConformanceCase)) := do
  match ← readTextFile path with
  | .error e => return .error (.file e)
  | .ok text =>
    match read? text with
    | some cases => return .ok cases
    | none => return .error (.json path)

end Sm83
