import CallersFirst.Digest.Sha256
import CallersFirst.Failure
import CallersFirst.Notice

/-! Source files together with their syntax trees. -/

namespace CallersFirst

/-- A source text with its syntax tree. -/
structure ParsedFile where
  /-- The path as it was given or found. -/
  path : String
  /-- The language of the file. -/
  language : Language
  /-- The SHA-256 digest of the text. -/
  contentHash : String
  /-- The text. -/
  source : Text
  /-- The syntax tree of the text. -/
  tree : SyntaxTree

/-- The SHA-256 digest of a text. -/
def Text.hash (text : Text) : String :=
  sha256Hex (String.ofList text).toUTF8.toList

namespace ParsingSettings

/-- The languages that the settings name. -/
def supported (settings : ParsingSettings) : List Language :=
  settings.languages.filterMap Language.ofName?

/-- What is said about names in the settings that are those of no language. -/
def notices (settings : ParsingSettings) : List Notice :=
  (settings.languages.filter fun name => (Language.ofName? name).isNone).map fun name =>
    ⟨.warn, s!"Unsupported language in configuration: {name}"⟩

/-- The language of a file among the supported ones. -/
def languageOf? (settings : ParsingSettings) (path : String) : Option Language :=
  Language.ofPath? settings.supported path

end ParsingSettings

/-- Reads a text as that of the file at a path. -/
def parseText (parser : Parser) (settings : ParsingSettings) (path : String) (source : Text) :
    Except Failure ParsedFile :=
  match settings.languageOf? path with
  | none => .error (.unknownLanguage path)
  | some language =>
    if settings.maxFileSize < source.byteSize then .error (.tooLarge path)
    else
      match parser (language.grammar path) source with
      | none => .error (.unparsed language path)
      | some tree => .ok ⟨path, language, source.hash, source, tree⟩

/-- Reads the file at a path. -/
def parseFile (parser : Parser) (settings : ParsingSettings) (files : FileTree) (path : String) :
    Except Failure ParsedFile :=
  match files.readText path with
  | .error cause => .error (.io cause)
  | .ok source => parseText parser settings path source

end CallersFirst
