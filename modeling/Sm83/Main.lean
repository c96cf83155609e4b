import Sm83.CommandLine.Program

/-!
# The program on a real file system

Questions about files are answered by the operating system, and the report on the command line is
written to the standard streams.

## Main definitions

* the instance of `FileAccess` for `IO`.
* `main` — the program.
-/

namespace Sm83

/-- The number of an error; it may come negated. -/
def errorNumber (code : UInt32) : Nat :=
  if 0x80000000 ≤ code then (0 - code).toNat else code.toNat

/-- The reason for which the operating system refused. -/
def FileFault.ofError : IO.Error → FileFault
  | .noFileOrDirectory _ _ _ => notFound
  | .inappropriateType _ code _ => if errorNumber code = 20 then notADirectory else isADirectory
  | .permissionDenied _ _ _ => other "Permission denied (os error 13)"
  | e => other (toString e)

/-- The result of an action, or the reason for which the operating system refused it. -/
def attempt {α : Type} (action : IO α) : IO (Except FileFault α) := do
  match ← action.toBaseIO with
  | .ok a => return .ok a
  | .error e => return .error (.ofError e)

/-- The content of a file. -/
def readBytesOnDisk (path : String) : IO (Except FileFault (Array UInt8)) := do
  if path.toList.contains '\x00' then return .error .nulInPath
  if path.isEmpty then return .error .notFound
  attempt do return (← IO.FS.readBinFile path).data

/-- Whether a path leads to a directory. -/
def isDirectoryOnDisk (path : String) : IO Bool := do
  if path.isEmpty then return false
  ((← IO.currentDir) / path).isDir

/-- The names in a directory. -/
def entriesOnDisk (path : String) : IO (Except FileFault (List String)) := do
  attempt do
    let entries ← ((← IO.currentDir) / path).readDir
    return entries.toList.map (·.fileName)

instance : FileAccess IO where
  readBytes := readBytesOnDisk
  isDirectory := isDirectoryOnDisk
  entries := entriesOnDisk

end Sm83

/-- Answer a command line. -/
def main (args : List String) : IO UInt32 := do
  let report ← Sm83.commandLineReport (← IO.getEnv "XDG_CONFIG_HOME") (← IO.getEnv "HOME") args
  let stdout ← IO.getStdout
  stdout.write ⟨report.output⟩
  stdout.flush
  IO.eprint report.messages
  return report.code.toUInt32
