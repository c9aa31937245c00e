import CallersFirst.Ignore.File
import CallersFirst.Language
import CallersFirst.Settings.Format

/-! Why a run fails. -/

namespace CallersFirst

/-- A cause of failure. -/
inductive Failure where
  /-- The settings cannot be read or written. -/
  | settings (cause : SettingsError)
  /-- The settings file that was asked for is not there. -/
  | settingsMissing (path : String)
  /-- There is a settings file already. -/
  | settingsExist (path : String)
  /-- A report was asked for in an unknown format. -/
  | reportFormat (format : String)
  /-- An ignore pattern of the settings is malformed. -/
  | ignorePattern (pattern : String)
  /-- The extension of a file belongs to no supported language. -/
  | unknownLanguage (path : String)
  /-- A text is larger than the settings allow. -/
  | tooLarge (path : String)
  /-- The parser gives no tree for a file. -/
  | unparsed (language : Language) (path : String)
  /-- A file cannot be read or written. -/
  | io (cause : IoError)
  /-- A directory cannot be made. -/
  | directory (cause : IoError)
  /-- There is nothing at a path to look into. -/
  | missingRoot (path : String)
  /-- A directory cannot be looked into. -/
  | unreadable (path : String) (cause : IoError)
  /-- Ignore files around a directory to look into cannot be used. -/
  | ignoreFiles (faults : List IgnoreFault)
  /-- A file has another text than the one that was read from it before. -/
  | changedMeanwhile (expected actual : String)
  /-- Files are not in readable order. -/
  | outOfOrder (files : Nat)
deriving DecidableEq, Repr

namespace Failure

/-- What a failure says. -/
def message : Failure → String
  | .settings cause => "Configuration error: " ++ cause.message
  | .settingsMissing path => s!"Configuration error: Config file not found: {path}"
  | .settingsExist path => s!"Configuration error: {path} already exists"
  | .reportFormat format => s!"Configuration error: Unsupported format: {format}"
  | .ignorePattern pattern => s!"Configuration error: Invalid ignore pattern {pattern}"
  | .unknownLanguage path => s!"Parser error: Could not detect language for file: {path}"
  | .tooLarge path => s!"Parser error: File {path} exceeds maximum size limit"
  | .unparsed language path =>
    let title := language.title
    s!"Parser error: Failed to parse {title} code in {path}"
  | .io cause => "IO error: " ++ cause.message
  | .directory cause => cause.message
  | .missingRoot path => s!"File system error: No such file or directory: {path}"
  | .unreadable path cause =>
    let reason := cause.message
    s!"File system error: {path}: IO error for operation on {path}: {reason}"
  | .ignoreFiles faults => "File system error: " ++ "\n".intercalate (faults.map (·.message))
  | .changedMeanwhile expected actual =>
    s!"Content hash mismatch: expected {expected}, found {actual}"
  | .outOfOrder files => s!"Ordering check failed: {files} file(s) are not in readable order"

end Failure

end CallersFirst
