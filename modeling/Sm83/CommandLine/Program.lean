import Sm83.CommandLine.Help
import Sm83.Conformance.Reader
import Sm83.Conformance.Summary
import Sm83.Config
import Sm83.Listing
import Sm83.Loading
import Sm83.Machine.Play

/-!
# The program

What the commands do, for any file system that answers.  A report holds all that the program
writes, and its exit code.

## Main definitions

* `Report` — what the program writes.
* `playReport`, `listingReport`, `casesReport` — the commands.
* `commandLineReport` — a whole command line.
-/

namespace Sm83

/-- All that the program writes, and its exit code. -/
structure Report where
  code : UInt8 := 0
  output : Array UInt8 := #[]
  messages : String := ""

/-- The bytes of a text. -/
def encodeText (s : String) : Array UInt8 :=
  s.toUTF8.data

/-- The report of a command that failed with a message. -/
def Report.failure (messages message : String) (output : Array UInt8) : Report :=
  ⟨1, output, messages ++ message ++ "\n"⟩

variable {m : Type → Type} [Monad m] [FileAccess m]

/-- A new machine with a cartridge and, if one is given, a boot ROM. -/
def loadMachine (rom : String) (bootrom : Option String) : m (Except LoadError Machine) := do
  match ← Machine.powerOn.loadRomFile rom with
  | .error e => return .error e
  | .ok machine =>
    match bootrom with
    | none => return .ok machine
    | some path => machine.loadBootRomFile path

/-- The message about the lines of a symbol file that could not be understood. -/
def skippedMessage (path : String) (skipped : Nat) : String :=
  if skipped = 0 then "" else path ++ ": skipped " ++ Nat.repr skipped ++ " malformed line(s)\n"

/-- The symbols of files, added to a table, and the messages on the way. -/
def loadSymbols (messages : String) (t : SymbolTable) :
    List String → m (String × Except FileError SymbolTable)
  | [] => return (messages, .ok t)
  | path :: paths => do
    match ← t.loadFile path with
    | .error e => return (messages, .error e)
    | .ok (r, t) => loadSymbols (messages ++ skippedMessage path r.skipped) t paths

/-- A machine and symbols, for a command that reports on them. -/
def withProgram (rom : String) (bootrom : Option String) (symbols : List String)
    (k : String → Machine → SymbolTable → Report) : m Report := do
  match ← loadMachine rom bootrom with
  | .error e => return .failure "" e.message #[]
  | .ok machine =>
    match ← loadSymbols "" {} symbols with
    | (messages, .error e) => return .failure messages e.message #[]
    | (messages, .ok t) => return k messages machine t

/-- The message about the error that ended a program: the routine in which it arose, if that has
a name, and the registers. -/
def errorMessage (t : SymbolTable) (e : CpuError) (r : RegisterFile) : String :=
  e.message ++ ((t.containing r.pc).elim "" fun s => " (in " ++ s.name ++ ")") ++ "\n" ++ r.summary

/-- The report on a program that was played. -/
def playReport (maxSteps : Nat) (messages : String) (machine : Machine) (t : SymbolTable) :
    Report :=
  let played := machine.play maxSteps
  match played.error with
  | none => { output := played.output, messages := messages }
  | some e => .failure messages (errorMessage t e played.machine.cpu.regs) played.output

/-- The report with the listing of a program. -/
def listingReport (messages : String) (machine : Machine) (t : SymbolTable) : Report :=
  { output := encodeText (listingText t (programListing machine.memory t)), messages := messages }

/-- The files that paths stand for: themselves, or the `json` files of a directory in order. -/
def expandPaths : List String → m (Except FileFault (List String))
  | [] => return .ok []
  | path :: paths => do
    let files ←
      if ← FileAccess.isDirectory path then do
        let entries ← FileAccess.entries path
        pure (entries.map fun names =>
          ((names.filter (hasExtension "json")).mergeSort fun a b => decide (a ≤ b)).map
            (joinPath path))
      else pure (.ok [path])
    match files with
    | .error e => return .error e
    | .ok files => return (← expandPaths paths).map (files ++ ·)

/-- The report on files of cases, behind the lines and the tally so far. -/
def casesReportFrom (read? : CasesReader) (sofar : String) (files : Nat) (t : Tally) :
    List String → m Report
  | [] =>
    let output := encodeText (sofar ++ totalLine files t ++ "\n")
    return if t.failed = 0 then { output := output }
      else .failure "" (Nat.repr t.failed ++ " case(s) failed") output
  | path :: paths => do
    match ← loadCases path read? with
    | .error e => return .failure "" e.message (encodeText sofar)
    | .ok cases =>
      let messages := cases.map ConformanceCase.message?
      casesReportFrom read? (sofar ++ unlines (caseFileLines path messages)) (files + 1)
        (t.add (.ofMessages messages)) paths

/-- The report on files of cases, which are read in a given way. -/
def casesReport (read? : CasesReader) (paths : List String) : m Report := do
  match ← expandPaths paths with
  | .error e => return .failure "" e.reason #[]
  | .ok files => casesReportFrom read? "" 0 {} files

/-- The report of a command under a configuration. -/
def Command.report (config : Config) : Command → m Report
  | .run rom bootrom maxSteps symbols =>
    withProgram rom (bootrom <|> config.bootromPath) symbols
      (playReport (maxSteps.getD config.maxSteps))
  | .disasm rom bootrom symbols =>
    withProgram rom (bootrom <|> config.bootromPath) symbols listingReport
  | .sst paths => casesReport readCases? paths

/-- The report on a command line, in an environment with the given variables. -/
def commandLineReport (xdgConfigHome home : Option String) (args : List String) : m Report :=
  match Request.read args with
  | .misuse => return { code := 2, messages := "see 'gfgb --help'\n" }
  | .help topic => return { output := encodeText (helpText topic) }
  | .command config c => do
    let (settings, warnings) ← Config.load (config.getD (configPath xdgConfigHome home))
    let r ← c.report settings
    return { r with messages := warnings ++ r.messages }

end Sm83
