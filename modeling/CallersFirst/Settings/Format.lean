import CallersFirst.Settings
import CallersFirst.Toml.Document
import CallersFirst.Toml.Writer

/-! Settings as TOML documents: writing, reading and the checks made on reading. -/

namespace CallersFirst

/-- Why settings cannot be read or written. -/
inductive SettingsError where
  /-- The text is no TOML document, or a setting has the wrong type. -/
  | malformed
  /-- A number is too large to be written. -/
  | numberTooLarge
  /-- No pass is allowed. -/
  | noPasses
  /-- The format is unknown. -/
  | unknownFormat (format : String)
deriving DecidableEq, Repr

/-- The wording of a fault in settings. -/
def SettingsError.message : SettingsError → String
  | .malformed => "the settings are malformed"
  | .numberTooLarge => "a number is out of range"
  | .noPasses => "ordering.max_passes must be at least 1"
  | .unknownFormat format => "Unsupported output format: " ++ format

namespace Settings

/-- The value of a setting: its default where it is missing, and nothing where it has the wrong type. -/
def valueOr {α : Type} (default : α) (decode : Toml.Value → Option α) : Option Toml.Value → Option α
  | none => some default
  | some value => decode value

/-- Reads which files to look at. -/
def project? (value : Toml.Value) : Option ProjectSettings := do
  let field ← value.fields?
  let defaults : ProjectSettings := {}
  return {
    sourceDirs := ← valueOr defaults.sourceDirs (·.strings?) (field 0 "source_dirs")
    ignorePatterns := ← valueOr defaults.ignorePatterns (·.strings?) (field 1 "ignore_patterns") }

/-- Reads which files to read. -/
def parsing? (value : Toml.Value) : Option ParsingSettings := do
  let field ← value.fields?
  let defaults : ParsingSettings := {}
  return {
    languages := ← valueOr defaults.languages (·.strings?) (field 0 "languages")
    maxFileSize := ← valueOr defaults.maxFileSize (·.natural?) (field 1 "max_file_size") }

/-- Reads which scopes to put in order. -/
def ordering? (value : Toml.Value) : Option OrderingSettings := do
  let field ← value.fields?
  let defaults : OrderingSettings := {}
  return {
    classBodies := ← valueOr defaults.classBodies (·.boolean?) (field 0 "class_bodies")
    nestedScopes := ← valueOr defaults.nestedScopes (·.boolean?) (field 1 "nested_scopes")
    maxPasses := ← valueOr defaults.maxPasses (·.natural?) (field 2 "max_passes") }

/-- Reads how to print reports. -/
def output? (value : Toml.Value) : Option OutputSettings := do
  let field ← value.fields?
  let defaults : OutputSettings := {}
  return { format := ← valueOr defaults.format (·.string?) (field 0 "format") }

/-- Reads all settings of a document. -/
def ofValue? (value : Toml.Value) : Option Settings := do
  let field ← value.fields?
  return {
    project := ← valueOr {} project? (field 0 "project")
    parsing := ← valueOr {} parsing? (field 1 "parsing")
    ordering := ← valueOr {} ordering? (field 2 "ordering")
    output := ← valueOr {} output? (field 3 "output") }

/-- Accepts settings that allow a pass and name a known format. -/
def validate (settings : Settings) : Except SettingsError Settings :=
  if settings.ordering.maxPasses = 0 then .error .noPasses
  else if settings.output.format ∈ ["text", "json"] then .ok settings
  else .error (.unknownFormat settings.output.format)

/-- The settings that a text stands for. -/
def parse (text : Text) : Except SettingsError Settings :=
  match Toml.parse? text >>= ofValue? with
  | none => .error .malformed
  | some settings => settings.validate

/-- The least number that a document cannot hold. -/
def numberBound : Nat := 9223372036854775808

/-- The text of settings. -/
def document (settings : Settings) : Text :=
  let project := Toml.tableBlock "project" [
    Toml.keyLine "source_dirs" (Toml.stringArray settings.project.sourceDirs),
    Toml.keyLine "ignore_patterns" (Toml.stringArray settings.project.ignorePatterns)]
  let parsing := Toml.tableBlock "parsing" [
    Toml.keyLine "languages" (Toml.stringArray settings.parsing.languages),
    Toml.keyLine "max_file_size" (Toml.decimal settings.parsing.maxFileSize)]
  let ordering := Toml.tableBlock "ordering" [
    Toml.keyLine "class_bodies" (Toml.boolean settings.ordering.classBodies),
    Toml.keyLine "nested_scopes" (Toml.boolean settings.ordering.nestedScopes),
    Toml.keyLine "max_passes" (Toml.decimal settings.ordering.maxPasses)]
  let output := Toml.tableBlock "output" [
    Toml.keyLine "format" (Toml.quoted settings.output.format.toList)]
  project ++ '\n' :: (parsing ++ '\n' :: (ordering ++ '\n' :: output))

/-- The text of settings whose numbers a document can hold. -/
def render (settings : Settings) : Except SettingsError Text :=
  if settings.parsing.maxFileSize < numberBound ∧ settings.ordering.maxPasses < numberBound then
    .ok settings.document
  else .error .numberTooLarge

end Settings

end CallersFirst
