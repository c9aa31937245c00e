/-! The settings of a run and their default values. -/

namespace CallersFirst

/-- Which files a run looks at. -/
structure ProjectSettings where
  /-- The directories to look at when no paths are given. -/
  sourceDirs : List String := ["src"]
  /-- The patterns of files and directories to skip. -/
  ignorePatterns : List String := ["node_modules/", "dist/", "build/", ".git/", "*.min.js"]
deriving DecidableEq, Repr

/-- Which files a run can read. -/
structure ParsingSettings where
  /-- The names of the languages to support. -/
  languages : List String := ["javascript", "typescript"]
  /-- The greatest size of a source text, in bytes. -/
  maxFileSize : Nat := 1048576
deriving DecidableEq, Repr

/-- Which scopes are put in order, and how persistently. -/
structure OrderingSettings where
  /-- Whether the methods of class bodies are put in order. -/
  classBodies : Bool := true
  /-- Whether functions inside function bodies are put in order. -/
  nestedScopes : Bool := false
  /-- How often a file may be changed before its last text is kept. -/
  maxPasses : Nat := 8
deriving DecidableEq, Repr

/-- How reports are printed. -/
structure OutputSettings where
  /-- The format used when none is asked for. -/
  format : String := "text"
deriving DecidableEq, Repr

/-- All settings of a run. -/
structure Settings where
  /-- Which files to look at. -/
  project : ProjectSettings := {}
  /-- Which files to read. -/
  parsing : ParsingSettings := {}
  /-- Which scopes to put in order. -/
  ordering : OrderingSettings := {}
  /-- How to print reports. -/
  output : OutputSettings := {}
deriving DecidableEq, Repr

end CallersFirst
