import CallersFirst.Text

/-! The words of a command line, read by the options and operands that a command takes. -/

namespace CallersFirst

/-- Why the words of a command line are not carried out. -/
inductive UsageError where
  /-- There is no such option, or no room for an operand. -/
  | unknownArgument
  /-- An operand that has to be given is not. -/
  | missingOperand
  /-- An option has no value, or a value is empty where it must not be. -/
  | invalidValue
  /-- An option is given more than once. -/
  | repeatedOption
  /-- There is no such command. -/
  | unknownCommand
  /-- A value is attached to an option that takes none. -/
  | surplusValue
  /-- Help is asked for. -/
  | help
  /-- The version is asked for. -/
  | version
  /-- Nothing is given at all. -/
  | nothingGiven
  /-- Options are given and no command. -/
  | missingCommand
deriving DecidableEq, Repr

/-- What an option is for. -/
inductive OptionRole where
  /-- It is given or not. -/
  | flag
  /-- It has a value, which may be empty only if so marked. -/
  | value (mayBeEmpty : Bool)
  /-- It asks for help. -/
  | help
  /-- It asks for the version. -/
  | version
deriving DecidableEq, Repr

/-- An option that a command takes. -/
structure OptionSpec where
  /-- Its name behind two hyphens. -/
  name : String
  /-- Its letter behind one hyphen, if it has one. -/
  letter : Option Char := none
  /-- What it is for. -/
  role : OptionRole

/-- How many operands a command takes. -/
inductive OperandSpec where
  /-- None. -/
  | none
  /-- Exactly one. -/
  | one
  /-- Any number. -/
  | many
deriving DecidableEq, Repr

/-- What may follow the name of a command. -/
structure CommandSpec where
  /-- Its options. -/
  options : List OptionSpec
  /-- Its operands. -/
  operands : OperandSpec := .none
  /-- The commands that it stands before. -/
  commands : List String := []

/-- Words that wait to be checked: the values of an option, or operands. -/
inductive Pending where
  /-- The values of an option. -/
  | option (spec : OptionSpec) (values : List String)
  /-- Operands. -/
  | operands (words : List String)

/-- What has been read of the words of a command. -/
structure Reading where
  /-- The options that have been checked, with their values. -/
  options : List (String × List String) := []
  /-- The operands that have been checked. -/
  operands : List String := []
  /-- What waits to be checked. -/
  pending : Option Pending := none
  /-- Whether the option that waits still needs its value. -/
  awaiting : Bool := false
  /-- Whether all further words are operands. -/
  onlyOperands : Bool := false

namespace Reading

/-- The values of an option, if it has been given. -/
def values? (reading : Reading) (name : String) : Option (List String) :=
  reading.options.lookup name

/-- The value of an option, if it has been given. -/
def value? (reading : Reading) (name : String) : Option String :=
  (reading.values? name).bind List.head?

/-- Whether an option has been given. -/
def has (reading : Reading) (name : String) : Bool :=
  (reading.values? name).isSome

/-- Adds a checked option, which must not have been given before. -/
def addOption (reading : Reading) (name : String) (values : List String) :
    Except UsageError Reading :=
  if reading.has name then .error .repeatedOption
  else .ok { reading with options := reading.options ++ [(name, values)] }

/-- Adds an option with its values, of which there has to be one. -/
def addValues (reading : Reading) (spec : OptionSpec) (values : List String) :
    Except UsageError Reading := do
  if values.isEmpty then throw .invalidValue
  let added ← reading.addOption spec.name values
  if spec.role ≠ .value true ∧ "" ∈ values then throw .invalidValue
  return added

/-- Checks what waits to be checked. -/
def settle (reading : Reading) : Except UsageError Reading :=
  let rest := { reading with pending := none, awaiting := false }
  match reading.pending with
  | none => .ok rest
  | some (.option spec values) => rest.addValues spec values
  | some (.operands words) =>
    if "" ∈ words then .error .invalidValue else .ok { rest with operands := rest.operands ++ words }

/-- Takes an option that has no value. -/
def takeFlag (reading : Reading) (spec : OptionSpec) : Except UsageError Reading := do
  let settled ← reading.settle
  match spec.role with
  | .help => throw .help
  | .version => throw .version
  | .flag | .value _ => settled.addOption spec.name []

/-- Takes an option with a value, which may be attached to it or follow as the next word. -/
def takeValued (reading : Reading) (spec : OptionSpec) (attached : Option String) :
    Except UsageError Reading := do
  let settled ← reading.settle
  match attached with
  | some value => settled.addValues spec [value]
  | none => return { settled with pending := some (.option spec []), awaiting := true }

/-- Takes a word that starts with two hyphens. -/
def takeLong (spec : CommandSpec) (reading : Reading) (text : Text) : Except UsageError Reading :=
  let name := String.ofList (text.takeWhile (· ≠ '='))
  let attached :=
    match text.dropWhile (· ≠ '=') with
    | [] => none
    | _ :: value => some (String.ofList value)
  match spec.options.find? (·.name = name) with
  | none => .error .unknownArgument
  | some option =>
    match option.role, attached with
    | .value _, attached => reading.takeValued option attached
    | _, some _ => .error .surplusValue
    | _, none => reading.takeFlag option

/-- The value attached to a letter, for which an equals sign may stand in front. -/
def attachedTo : Text → Option String
  | [] => none
  | '=' :: value => some (String.ofList value)
  | value => some (String.ofList value)

/-- Takes the letters behind a hyphen, the last of which may have a value. -/
def takeLetters (spec : CommandSpec) (reading : Reading) : Text → Except UsageError Reading
  | [] => .ok reading
  | letter :: rest =>
    match spec.options.find? (·.letter = some letter) with
    | none => .error .unknownArgument
    | some option =>
      match option.role with
      | .value _ => reading.takeValued option (attachedTo rest)
      | _ => do takeLetters spec (← reading.takeFlag option) rest

/-- What is wrong with an operand for which there is no room. -/
def misplaced (spec : CommandSpec) (reading : Reading) (word : String) : UsageError :=
  if spec.commands.isEmpty ∨ (reading.onlyOperands ∧ word ∈ spec.commands) then .unknownArgument
  else .unknownCommand

/-- Whether there is room for one more operand. -/
def hasRoom (spec : CommandSpec) (reading : Reading) : Bool :=
  match spec.operands with
  | .none => false
  | .many => true
  | .one =>
    reading.operands.isEmpty &&
      match reading.pending with
      | some (.operands _) => false
      | _ => true

/-- Takes an operand. -/
def takeOperand (spec : CommandSpec) (reading : Reading) (word : String) : Except UsageError Reading :=
  if reading.hasRoom spec then
    match reading.pending with
    | some (.operands words) => .ok { reading with pending := some (.operands (words ++ [word])) }
    | _ => do return { ← reading.settle with pending := some (.operands [word]) }
  else .error (misplaced spec reading word)

/-- Takes one word. -/
def takeWord (spec : CommandSpec) (reading : Reading) (word : String) : Except UsageError Reading :=
  if reading.onlyOperands then reading.takeOperand spec word
  else
    match word.toList with
    | ['-', '-'] => .ok { reading with onlyOperands := true }
    | '-' :: '-' :: text => reading.takeLong spec text
    | '-' :: letter :: text => reading.takeLetters spec (letter :: text)
    | _ =>
      match reading.awaiting, reading.pending with
      | true, some (.option option values) =>
        .ok { reading with pending := some (.option option (values ++ [word])), awaiting := false }
      | _, _ => reading.takeOperand spec word

/-- Takes words up to the name of a command that may follow. The result holds that name and the words
behind it, if there is one. -/
def takeWords (spec : CommandSpec) (reading : Reading) :
    List String → Except UsageError (Reading × Option (String × List String))
  | [] => .ok (reading, none)
  | word :: rest =>
    if word ∈ spec.commands ∧ ¬reading.awaiting ∧ ¬reading.onlyOperands then
      .ok (reading, some (word, rest))
    else do takeWords spec (← reading.takeWord spec word) rest

end Reading

/-- Reads the words of a command that no other command follows. -/
def CommandSpec.read (spec : CommandSpec) (words : List String) : Except UsageError Reading := do
  let (reading, _) ← Reading.takeWords spec {} words
  let settled ← reading.settle
  if spec.operands = .one ∧ settled.operands.isEmpty then throw .missingOperand
  return settled

end CallersFirst
