import Sm83.Files.Access
import Sm83.Toml.Reader

/-!
# Configuration

Defaults for the command line, from a TOML file.  A file that is missing or has any fault counts
as empty; keys that are not known are ignored.

## Main definitions

* `Config` — the settings.
* `Config.ofText?`, `Config.load` — the settings of a text and of a file.
* `configPath` — the place of the file.
-/

namespace Sm83

/-- The settings. -/
structure Config where
  /-- The image of the boot ROM. -/
  bootromPath : Option String := none
  /-- The number of steps after which a run ends. -/
  maxSteps : Nat := 10000000
  /-- The level of messages. -/
  logLevel : String := "warn"
  deriving DecidableEq, Repr

/-- A text setting; `none` if the value is of another kind. -/
def textSetting? (default : α) (ofText : String → α) : Option TomlEntry → Option α
  | none => some default
  | some (.value (.text s)) => some (ofText s)
  | some _ => none

/-- A setting that is a number of 64 bits. -/
def countSetting? (default : Nat) : Option TomlEntry → Option Nat
  | none => some default
  | some (.value (.integer n)) => if 0 ≤ n ∧ n.toNat < bound64 then some n.toNat else none
  | some _ => none

namespace Config

/-- The settings that a text gives. -/
def ofText? (text : String) : Option Config := do
  let scope ← tomlDocument? text.toList
  let defaults : Config := {}
  return {
    bootromPath := ← textSetting? defaults.bootromPath some (scope.top? "bootrom_path")
    maxSteps := ← countSetting? defaults.maxSteps (scope.top? "max_steps")
    logLevel := ← textSetting? defaults.logLevel id (scope.top? "log_level") }

/-- The warning about a file that is not understood. -/
def warning (path : String) : String :=
  "Failed to parse config " ++ path ++ ": not a TOML document with known settings; using defaults\n"

/-- The settings of a file, and a warning if there is one. -/
def load {m : Type → Type} [Monad m] [FileAccess m] (path : String) : m (Config × String) := do
  match ← readTextFile path with
  | .error _ => return ({}, "")
  | .ok text =>
    match ofText? text with
    | some config => return (config, "")
    | none => return ({}, warning path)

end Config

/-- A variable of the environment; an empty one counts as unset. -/
def setVariable? (v : Option String) : Option String :=
  v.filter (!·.isEmpty)

/-- The place of the configuration file, from the variables `XDG_CONFIG_HOME` and `HOME`. -/
def configPath (xdgConfigHome home : Option String) : String :=
  let base := setVariable? xdgConfigHome <|> (setVariable? home).map (joinPath · ".config")
  match base with
  | none => "config.toml"
  | some base => joinPath (joinPath base "gfgb") "config.toml"

end Sm83
