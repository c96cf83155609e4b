/-!
# Files

What a program can ask of a file system.  Programs are written for any monad that answers, so
that they run on a real file system and on a given tree alike.  Paths are texts in which slashes
separate names.  A file that cannot be read gives a fault, and with its path an error.

## Main definitions

* `joinPath` — a path below another.
* `hasExtension` — whether a file name ends in a given extension.
* `FileFault` — the reasons for which a file cannot be read.
* `FileError` — a reason together with the path of the file.
* `FileAccess` — the questions.
* `readFile`, `readTextFile` — the content of a file, with the path in the error.
-/

namespace Sm83

/-! ### Paths -/

/-- The path `name` seen from `base`.  An absolute name stays as it is. -/
def joinPath (base name : String) : String :=
  if name.startsWith "/" || base.isEmpty then name
  else if base.endsWith "/" then base ++ name
  else base ++ "/" ++ name

/-- The text behind the last full stop of a file name, if something stands before it. -/
def extension? (name : List Char) : Option (List Char) :=
  match name.reverse.span (· != '.') with
  | (_, []) => none
  | (_, [_]) => none
  | (ending, _ :: _ :: _) => some ending.reverse

/-- Whether a file name has the given extension. -/
def hasExtension (ending : String) (name : String) : Bool :=
  extension? name.toList == some ending.toList

/-! ### Faults -/

/-- A reason for which a file cannot be read. -/
inductive FileFault where
  | notFound
  | notADirectory
  | isADirectory
  | nameTooLong
  /-- The path holds a NUL character. -/
  | nulInPath
  /-- The content of a text file is not UTF-8. -/
  | notUtf8
  /-- Any other reason, given by its text. -/
  | other (reason : String)
  deriving DecidableEq, Repr

/-- The text of a reason. -/
def FileFault.reason : FileFault → String
  | notFound => "No such file or directory (os error 2)"
  | notADirectory => "Not a directory (os error 20)"
  | isADirectory => "Is a directory (os error 21)"
  | nameTooLong => "File name too long (os error 36)"
  | nulInPath => "file name contained an unexpected NUL byte"
  | notUtf8 => "stream did not contain valid UTF-8"
  | other reason => reason

/-- A file that could not be read. -/
structure FileError where
  path : String
  fault : FileFault
  deriving DecidableEq, Repr

/-- The text of the error. -/
def FileError.message (e : FileError) : String :=
  "failed to read " ++ e.path ++ ": " ++ e.fault.reason

/-! ### Questions -/

/-- What a program can ask of a file system. -/
class FileAccess (m : Type → Type) where
  /-- The content of a file. -/
  readBytes : (path : String) → m (Except FileFault (Array UInt8))
  /-- Whether a path leads to a directory. -/
  isDirectory : (path : String) → m Bool
  /-- The names in a directory, in any order. -/
  entries : (path : String) → m (Except FileFault (List String))

/-- The text that a byte string encodes in UTF-8. -/
def decodeText (bytes : Array UInt8) : Except FileFault String :=
  match String.fromUTF8? ⟨bytes⟩ with
  | some text => .ok text
  | none => .error .notUtf8

variable {m : Type → Type} [Monad m] [FileAccess m]

/-- The content of a file. -/
def readFile (path : String) : m (Except FileError (Array UInt8)) := do
  let result ← FileAccess.readBytes path
  return result.mapError (⟨path, ·⟩)

/-- The content of a text file. -/
def readTextFile (path : String) : m (Except FileError String) := do
  let result ← FileAccess.readBytes path
  return (result.bind decodeText).mapError (⟨path, ·⟩)

end Sm83
