import CallersFirst.Collection

/-! Commands: what they read and write besides giving a result. -/

namespace CallersFirst

/-- What commands act on. -/
structure World where
  /-- The files below the working directory. -/
  files : FileTree
  /-- What has been printed. -/
  printed : Text := []
  /-- What has been said about the progress. -/
  notices : List Notice := []

/-- A command changes the world and gives a result or fails. What it did before failing stays done. -/
abbrev Command := ExceptT Failure (StateM World)

namespace Command

/-- Says something about the progress. -/
def say (notices : List Notice) : Command Unit :=
  modify fun world => { world with notices := world.notices ++ notices }

/-- Tells about progress. -/
def inform (text : String) : Command Unit :=
  say [⟨.info, text⟩]

/-- Prints lines. -/
def printLines (lines : List Text) : Command Unit :=
  modify fun world => { world with printed := world.printed ++ lines.flatMap (· ++ ['\n']) }

/-- The files as they are now. -/
def files : Command FileTree :=
  return (← get).files

/-- Puts other files in place of those there are. -/
def setFiles (files : FileTree) : Command Unit :=
  modify fun world => { world with files }

/-- The result of something that needs no world. -/
def attempt {α : Type} (result : Except Failure α) : Command α :=
  match result with
  | .ok value => pure value
  | .error failure => throw failure

/-- Writes a text to a file. -/
def write (path : String) (text : Text) : Command Unit := do
  match (← files).writeText path text with
  | .ok changed => setFiles changed
  | .error cause => throw (.io cause)

/-- The source files at or below some paths, or below the source directories of the settings if no
paths are given. -/
def sources (settings : Settings) (paths : List String) : Command (List String) := do
  let roots := if paths.isEmpty then settings.project.sourceDirs else paths
  attempt (collect (← files) settings roots)

/-- Reads the source file at a path. -/
def parse (parser : Parser) (settings : Settings) (path : String) : Command ParsedFile := do
  attempt (parseFile parser settings.parsing (← files) path)

end Command

end CallersFirst
