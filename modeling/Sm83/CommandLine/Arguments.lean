import Sm83.Text.Numerals

/-!
# Command-line arguments

A command takes operands and options.  An option is written `--name value` or `--name=value`,
and unless it is repeatable it is given once.  Behind `--` everything is an operand.  Arguments
are read from left to right, and a request for help is granted where it is met.

## Main definitions

* `OptionSpec`, `CommandSpec` — what a command takes.
* `Arguments.read` — the options and operands of a command.
* `Request`, `Request.read` — what a command line asks for.
-/

namespace Sm83

/-- An option with a value. -/
structure OptionSpec where
  name : String
  /-- Whether it may be given more than once. -/
  repeatable : Bool := false
  /-- Whether a value is acceptable. -/
  accepts : String → Bool := (!·.isEmpty)

/-- What a command takes. -/
structure CommandSpec where
  options : List OptionSpec
  /-- Whether there may be more than one operand. -/
  manyOperands : Bool := false

/-- The number of 64 bits that an argument denotes. -/
def countArgument? (s : String) : Option Nat :=
  readDecimal? bound64 s.toList

/-- The option for the configuration file, which every command takes. -/
def configOption : OptionSpec := { name := "config" }

/-- The arguments of `run`. -/
def runSpec : CommandSpec where
  options := [configOption, { name := "bootrom" },
    { name := "max-steps", accepts := fun s => (countArgument? s).isSome },
    { name := "symbols", repeatable := true }]

/-- The arguments of `disasm`. -/
def disasmSpec : CommandSpec where
  options := [configOption, { name := "symbols", repeatable := true }, { name := "bootrom" }]

/-- The arguments of `sst`. -/
def sstSpec : CommandSpec where
  options := [configOption]
  manyOperands := true

/-- The options and operands that were given, in order. -/
structure Arguments where
  options : List (String × String) := []
  operands : List String := []

/-- What reading arguments comes to. -/
inductive Reading (α : Type) where
  | done (a : α)
  /-- Help was asked for. -/
  | help
  /-- The arguments are not acceptable. -/
  | misuse

/-- What an argument looks like. -/
inductive ArgumentShape where
  | separator
  /-- An option, with the value attached to it. -/
  | long (name : String) (value : Option String)
  | short (letters : String)
  | operand

/-- The shape of an argument.  A dash alone is an operand. -/
def ArgumentShape.of (arg : String) : ArgumentShape :=
  match arg.toList with
  | ['-', '-'] => .separator
  | '-' :: '-' :: cs =>
    match cs.span (· != '=') with
    | (name, []) => .long (String.ofList name) none
    | (name, _ :: value) => .long (String.ofList name) (some (String.ofList value))
  | '-' :: c :: cs => .short (String.ofList (c :: cs))
  | _ => .operand

namespace Arguments

/-- Add an operand, if it is acceptable. -/
def addOperand? (spec : CommandSpec) (a : Arguments) (operand : String) : Option Arguments :=
  if operand.isEmpty || (!spec.manyOperands && !a.operands.isEmpty) then none
  else some { a with operands := a.operands ++ [operand] }

/-- Add an option with its value, if both are acceptable. -/
def addOption? (spec : CommandSpec) (a : Arguments) (name value : String) : Option Arguments := do
  let o ← spec.options.find? (·.name == name)
  if !o.accepts value || (!o.repeatable && (a.options.lookup name).isSome) then none
  else some { a with options := a.options ++ [(name, value)] }

/-- Read the arguments that follow those already read. -/
def readFrom (spec : CommandSpec) (a : Arguments) : List String → Reading Arguments
  | [] => .done a
  | arg :: rest =>
    match ArgumentShape.of arg with
    | .separator => (rest.foldlM (addOperand? spec) a).elim .misuse .done
    | .short letters => if letters.startsWith "h" then .help else .misuse
    | .operand =>
      match addOperand? spec a arg with
      | none => .misuse
      | some a => readFrom spec a rest
    | .long "help" none => .help
    | .long name (some value) =>
      match addOption? spec a name value with
      | none => .misuse
      | some a => readFrom spec a rest
    | .long name none =>
      match rest with
      | [] => .misuse
      | value :: rest =>
        match ArgumentShape.of value with
        | .operand =>
          match addOption? spec a name value with
          | none => .misuse
          | some a => readFrom spec a rest
        | _ => .misuse

/-- Read the arguments of a command.  There has to be an operand. -/
def read (spec : CommandSpec) (args : List String) : Reading Arguments :=
  match readFrom spec {} args with
  | .done a => if a.operands.isEmpty then .misuse else .done a
  | r => r

/-- The value of an option. -/
def value? (a : Arguments) (name : String) : Option String :=
  a.options.lookup name

/-- The values of a repeatable option. -/
def values (a : Arguments) (name : String) : List String :=
  (a.options.filter (·.1 == name)).map Prod.snd

end Arguments

/-- What the program is asked to do. -/
inductive Command where
  /-- Play a program. -/
  | run (rom : String) (bootrom : Option String) (maxSteps : Option Nat) (symbols : List String)
  /-- List a program. -/
  | disasm (rom : String) (bootrom : Option String) (symbols : List String)
  /-- Check conformance cases. -/
  | sst (paths : List String)
  deriving DecidableEq, Repr

/-- The commands about which help can be given. -/
inductive CommandName where
  | run | disasm | sst | help
  deriving DecidableEq, Repr

/-- The command with a given name. -/
def CommandName.ofString? : String → Option CommandName
  | "run" => some run
  | "disasm" => some disasm
  | "sst" => some sst
  | "help" => some help
  | _ => none

/-- What a command line asks for. -/
inductive Request where
  /-- A command, with the path of a configuration file if one is given. -/
  | command (config : Option String) (c : Command)
  /-- Help on the program, or on one command. -/
  | help (topic : Option CommandName)
  /-- Nothing that can be understood. -/
  | misuse
  deriving DecidableEq, Repr

namespace Request

/-- The request that a command with its arguments makes.  The configuration given behind the
command's name counts before that in front of it. -/
def ofReading (topic : CommandName) (config : Option String) (toCommand : Arguments → Command) :
    Reading Arguments → Request
  | .done a => .command (a.value? "config" <|> config) (toCommand a)
  | .help => .help (some topic)
  | .misuse => .misuse

/-- The request of a command, by its name and arguments. -/
def ofCommand (config : Option String) (args : List String) : CommandName → Request
  | .run => ofReading .run config
      (fun a => .run (a.operands.headD "") (a.value? "bootrom")
        ((a.value? "max-steps").bind countArgument?) (a.values "symbols"))
      (Arguments.read runSpec args)
  | .disasm => ofReading .disasm config
      (fun a => .disasm (a.operands.headD "") (a.value? "bootrom") (a.values "symbols"))
      (Arguments.read disasmSpec args)
  | .sst => ofReading .sst config (fun a => .sst a.operands) (Arguments.read sstSpec args)
  | .help =>
    match args with
    | [] => .help none
    | [topic] => (CommandName.ofString? topic).elim .misuse fun t => .help (some t)
    | _ => .misuse

/-- Read the command line from the program's own options on. -/
def readFrom (config : Option String) : List String → Request
  | [] => .misuse
  | arg :: rest =>
    match ArgumentShape.of arg with
    | .operand => (CommandName.ofString? arg).elim .misuse (ofCommand config rest)
    | .short letters => if letters.startsWith "h" then .help none else .misuse
    | .long "help" none => .help none
    | .long "config" (some value) =>
      if value.isEmpty || config.isSome then .misuse else readFrom (some value) rest
    | .long "config" none =>
      match rest with
      | [] => .misuse
      | value :: rest =>
        match ArgumentShape.of value with
        | .operand =>
          if value.isEmpty || config.isSome then .misuse else readFrom (some value) rest
        | _ => .misuse
    | _ => .misuse

/-- What a command line asks for. -/
def read (args : List String) : Request :=
  readFrom none args

end Request

end Sm83
