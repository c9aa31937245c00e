import CallersFirst.Command
import CallersFirst.FileTree.Directories

/-! Finding, reading and writing the settings of a project. -/

namespace CallersFirst

/-- The name under which settings are written. -/
def Settings.fileName : String := "readorder.toml"

/-- The names under which settings are looked for, the first one found being used. -/
def Settings.fileNames : List String :=
  ["Readorder.toml", Settings.fileName, ".readorder.toml"]

namespace FileTree

/-- Reads the settings in a file. -/
def readSettings (files : FileTree) (path : String) : Except Failure Settings :=
  match files.readText path with
  | .error cause => .error (.io cause)
  | .ok text =>
    match Settings.parse text with
    | .error cause => .error (.settings cause)
    | .ok settings => .ok settings

/-- The settings in the file asked for, or else in the one found in the working directory, or else
the default ones. -/
def settingsFor (files : FileTree) : Option String → Except Failure Settings
  | some path => if files.exists? path then files.readSettings path else .error (.settingsMissing path)
  | none =>
    match Settings.fileNames.find? files.exists? with
    | some name => files.readSettings name
    | none => .ok {}

end FileTree

namespace Command

/-- Writes the default settings to a file in a directory, which is made if need be, or in the working
directory. There must be no such file yet. -/
def writeSettings (directory : Option String) : Command Unit := do
  let tree ← files
  let path := Path.join (directory.getD ".") Settings.fileName
  let shown := Path.join (directory.getD tree.home) Settings.fileName
  if tree.exists? path then throw (.settingsExist shown)
  let (made, failure) := tree.createDirectories (directory.getD ".")
  setFiles made
  if let some cause := failure then throw (.directory cause)
  match Settings.render {} with
  | .error cause => throw (.settings cause)
  | .ok text => write path text
  inform s!"Wrote {shown}"

end Command

end CallersFirst
