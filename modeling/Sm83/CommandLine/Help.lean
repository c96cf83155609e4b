import Sm83.CommandLine.Arguments
import Sm83.Conformance.Summary

/-!
# Help

The texts that explain the command line.

## Main definitions

* `helpText` — the help on the program or on one command.
-/

namespace Sm83

/-- The description of a command. -/
def CommandName.about : CommandName → String
  | run => "Run a ROM without video or audio and print serial output"
  | disasm => "Print a disassembly of the boot ROM and bank 0"
  | sst => "Replay single-step test vectors"
  | help => "Print this message or the help of the given subcommand(s)"

/-- The lines of help on the program. -/
def programHelp : List String :=
  ["Headless Game Boy CPU core runner",
    "",
    "Usage: gfgb [OPTIONS] <COMMAND>",
    "",
    "Commands:",
    "  run     " ++ CommandName.run.about,
    "  disasm  " ++ CommandName.disasm.about,
    "  sst     " ++ CommandName.sst.about,
    "  help    " ++ CommandName.help.about,
    "",
    "Options:",
    "      --config <CONFIG>  Path to config file",
    "  -h, --help             Print help"]

/-- The lines of help on a command. -/
def commandHelp (name : CommandName) : List String :=
  [name.about, ""] ++
    match name with
    | .run =>
      ["Usage: gfgb run [OPTIONS] <ROM>",
        "",
        "Arguments:",
        "  <ROM>  Path to ROM file",
        "",
        "Options:",
        "      --bootrom <BOOTROM>      Path to boot ROM file",
        "      --config <CONFIG>        Path to config file",
        "      --max-steps <MAX_STEPS>  Stop after this many instructions",
        "      --symbols <SYMBOLS>      RGBDS .sym file used to name the failing routine",
        "  -h, --help                   Print help"]
    | .disasm =>
      ["Usage: gfgb disasm [OPTIONS] <ROM>",
        "",
        "Arguments:",
        "  <ROM>  Path to ROM file",
        "",
        "Options:",
        "      --config <CONFIG>    Path to config file",
        "      --symbols <SYMBOLS>  RGBDS .sym file (may be given more than once)",
        "      --bootrom <BOOTROM>  Path to boot ROM file",
        "  -h, --help               Print help"]
    | .sst =>
      ["Usage: gfgb sst [OPTIONS] <PATHS>...",
        "",
        "Arguments:",
        "  <PATHS>...  JSON files, or directories of them",
        "",
        "Options:",
        "      --config <CONFIG>  Path to config file",
        "  -h, --help             Print help"]
    | .help =>
      ["Usage: gfgb help [COMMAND]...",
        "",
        "Arguments:",
        "  [COMMAND]...  Print help for the subcommand(s)"]

/-- The help on the program or on one command. -/
def helpText (topic : Option CommandName) : String :=
  unlines (topic.elim programHelp commandHelp)

end Sm83
