import Sm83.Files.Access
import Sm83.Machine
import Sm83.Symbol.Table

/-!
# Loading files

Images and symbols from files.

## Main definitions

* `LoadError` — the reasons for which a machine is not loaded.
* `Machine.loadRomFile`, `Machine.loadBootRomFile` — images from files.
* `SymbolTable.loadFile` — symbols from a file.
-/

namespace Sm83

/-- The reasons for which a machine is not loaded. -/
inductive LoadError where
  /-- The file cannot be read. -/
  | file (e : FileError)
  /-- Its content is refused. -/
  | image (e : ImageError)
  deriving DecidableEq, Repr

/-- The text of an error. -/
def LoadError.message : LoadError → String
  | file e => e.message
  | image e => e.message

variable {m : Type → Type} [Monad m] [FileAccess m]

/-- Load the image of a cartridge from a file. -/
def Machine.loadRomFile (machine : Machine) (path : String) : m (Except LoadError Machine) := do
  match ← readFile path with
  | .error e => return .error (.file e)
  | .ok bytes => return (machine.loadRom bytes).mapError .image

/-- Load and map the image of a boot ROM from a file. -/
def Machine.loadBootRomFile (machine : Machine) (path : String) :
    m (Except LoadError Machine) := do
  match ← readFile path with
  | .error e => return .error (.file e)
  | .ok bytes => return (machine.loadBootRom bytes).mapError .image

/-- Add the symbols of a file. -/
def SymbolTable.loadFile (t : SymbolTable) (path : String) :
    m (Except FileError (SymbolReport × SymbolTable)) := do
  match ← readTextFile path with
  | .error e => return .error e
  | .ok text => return .ok (t.extend text.toList)

end Sm83
