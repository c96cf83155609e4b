import Sm83.Json.Token

/-!
# Reading JSON

The reader takes one token after the other and keeps the containers that are still open on a
stack, so values may be nested to any depth.

## Main definitions

* `JsonFrame`, `JsonReader` — an open container, and the state of the reader.
* `JsonReader.feed` — one token.
* `Json.parse?` — the value that a text denotes.
-/

namespace Sm83

/-- A container that is still open; what it holds so far is given backwards. -/
inductive JsonFrame where
  | array (items : List Json)
  /-- An object, with the key whose value comes next. -/
  | object (members : List (List TextUnit × Json)) (key : List TextUnit)

/-- What the reader expects. -/
inductive JsonReader where
  /-- A value. -/
  | value (stack : List JsonFrame)
  /-- A first item, or the end of the array. -/
  | firstItem (stack : List JsonFrame)
  /-- A first key, or the end of the object. -/
  | firstKey (stack : List JsonFrame)
  /-- A further key. -/
  | nextKey (members : List (List TextUnit × Json)) (stack : List JsonFrame)
  /-- The colon behind a key. -/
  | colon (members : List (List TextUnit × Json)) (key : List TextUnit) (stack : List JsonFrame)
  /-- A comma, or the end of the innermost array. -/
  | afterItem (items : List Json) (stack : List JsonFrame)
  /-- A comma, or the end of the innermost object. -/
  | afterMember (members : List (List TextUnit × Json)) (stack : List JsonFrame)
  /-- Nothing more. -/
  | done (j : Json)

namespace JsonReader

/-- Put a value into the innermost open container. -/
def complete (j : Json) : List JsonFrame → JsonReader
  | [] => .done j
  | .array items :: stack => .afterItem (j :: items) stack
  | .object members key :: stack => .afterMember ((key, j) :: members) stack

/-- Take the first token of a value. -/
def feedValue (stack : List JsonFrame) : JsonToken → Option JsonReader
  | .null => some (complete .null stack)
  | .bool b => some (complete (.bool b) stack)
  | .number n => some (complete (.number n) stack)
  | .string units => some (complete (.string units) stack)
  | .openArray => some (.firstItem stack)
  | .openObject => some (.firstKey stack)
  | _ => none

/-- Take one token. -/
def feed : JsonReader → JsonToken → Option JsonReader
  | .value stack, t => feedValue stack t
  | .firstItem stack, .closeArray => some (complete (.array []) stack)
  | .firstItem stack, t => feedValue (.array [] :: stack) t
  | .firstKey stack, .closeObject => some (complete (.object []) stack)
  | .firstKey stack, .string key => some (.colon [] key stack)
  | .nextKey members stack, .string key => some (.colon members key stack)
  | .colon members key stack, .colon => some (.value (.object members key :: stack))
  | .afterItem items stack, .comma => some (.value (.array items :: stack))
  | .afterItem items stack, .closeArray => some (complete (.array items.reverse) stack)
  | .afterMember members stack, .comma => some (.nextKey members stack)
  | .afterMember members stack, .closeObject => some (complete (.object members.reverse) stack)
  | _, _ => none

/-- The value that was read, if it is complete. -/
def result? : JsonReader → Option Json
  | .done j => some j
  | _ => none

end JsonReader

/-- The value that a text denotes. -/
def Json.parse? (cs : List Char) : Option Json := do
  let tokens ← jsonTokens? cs
  let reader ← tokens.foldlM JsonReader.feed (.value [])
  reader.result?

end Sm83
