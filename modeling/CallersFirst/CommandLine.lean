import CallersFirst.CommandLine.Words

/-! What a command line asks for. -/

namespace CallersFirst

/-- What is to be done. -/
inductive Action where
  /-- Report the files that are out of order. -/
  | check (paths : List String) (format : Option String)
  /-- Put files in order, or only tell which would change. -/
  | fix (paths : List String) (dryRun : Bool)
  /-- Tell the units, calls and orders of a file. -/
  | outline (path : String) (format : Option String)
  /-- Write the default settings to a directory. -/
  | writeSettings (directory : Option String)
deriving DecidableEq, Repr

/-- What a command line asks for. -/
structure Invocation where
  /-- The file with the settings, if one is named. -/
  settingsPath : Option String
  /-- Whether to tell more about the progress. -/
  verbose : Bool
  /-- What is to be done. -/
  action : Action
deriving DecidableEq, Repr

namespace Invocation

/-- The option that asks for help, which every command takes. -/
def helpOption : OptionSpec := ⟨"help", some 'h', .help⟩

/-- The option that names a format. -/
def formatOption : OptionSpec := ⟨"format", none, .value true⟩

/-- The words before the name of a command. -/
def mainSpec : CommandSpec where
  options := [⟨"config", some 'c', .value false⟩, ⟨"verbose", some 'v', .flag⟩, helpOption,
    ⟨"version", some 'V', .version⟩]
  commands := ["check", "fix", "order", "init", "help"]

/-- The words behind `check`. -/
def checkSpec : CommandSpec where
  options := [formatOption, helpOption]
  operands := .many

/-- The words behind `fix`. -/
def fixSpec : CommandSpec where
  options := [⟨"dry-run", none, .flag⟩, helpOption]
  operands := .many

/-- The words behind `order`. -/
def orderSpec : CommandSpec where
  options := [formatOption, helpOption]
  operands := .one

/-- The words behind `init`. -/
def initSpec : CommandSpec where
  options := [⟨"path", some 'p', .value false⟩, helpOption]

/-- Help on what the words name, which is at most one command. -/
def helpOn : List String → UsageError
  | [] => .help
  | [name] => if name ∈ mainSpec.commands then .help else .unknownCommand
  | _ => .unknownCommand

/-- What a command and the words behind it ask for. -/
def readAction (name : String) (words : List String) : Except UsageError Action :=
  match name with
  | "check" => do
    let reading ← checkSpec.read words
    return .check reading.operands (reading.value? "format")
  | "fix" => do
    let reading ← fixSpec.read words
    return .fix reading.operands (reading.has "dry-run")
  | "order" => do
    let reading ← orderSpec.read words
    match reading.operands with
    | path :: _ => return .outline path (reading.value? "format")
    | [] => throw .missingOperand
  | "init" => do
    let reading ← initSpec.read words
    return .writeSettings (reading.value? "path")
  | _ => throw (helpOn words)

/-- What the words of a command line ask for. -/
def parse (words : List String) : Except UsageError Invocation := do
  match ← Reading.takeWords mainSpec {} words with
  | (reading, some (name, rest)) =>
    let action ← readAction name rest
    let settled ← reading.settle
    return ⟨settled.value? "config", settled.has "verbose", action⟩
  | (reading, none) =>
    let settled ← reading.settle
    throw (if settled.options.isEmpty then .nothingGiven else .missingCommand)

end Invocation

end CallersFirst
