import CallersFirst.Program
import CallersFirst.StoredTrees

/-! The command line: reads the working directory, carries out one command and writes what it changed. -/

namespace CallersFirst

/-- What is printed when help is asked for. -/
def usage : String :=
  "\n".intercalate [
    "Put functions in the order you read them: callers first",
    "",
    "Usage: readorder [--config PATH] [--verbose] COMMAND",
    "",
    "Commands:",
    "  check [--format FORMAT] [PATH]...  report scopes whose functions are not in readable order",
    "  fix [--dry-run] [PATH]...          reorder functions in place",
    "  order [--format FORMAT] FILE       show units, calls, cycles and the readable order of one file",
    "  init [--path DIRECTORY]            write a default configuration file"]

/-- What is printed when the version is asked for. -/
def versionText : String := "readorder 0.1.0"

/-- What is said about words that cannot be carried out. -/
def UsageError.message : UsageError → String
  | .unknownArgument => "unexpected argument"
  | .missingOperand => "a required argument was not provided"
  | .invalidValue => "a value is missing or empty"
  | .repeatedOption => "an option cannot be used multiple times"
  | .unknownCommand => "unrecognized command"
  | .surplusValue => "a value was given to an option that takes none"
  | .missingCommand => "a command is required"
  | .help | .nothingGiven => usage
  | .version => versionText

/-- Adds what is in a directory of the disk to a tree. Directories nested deeper than the given depth
are left out. -/
def loadDirectory (path : String) (place : Location) : Nat → FileTree → IO FileTree
  | 0, files => return files
  | depth + 1, files => do
    let mut files := files
    for name in ← directoryNames path do
      let inner := Path.join path name
      let location := place ++ [name]
      match ← (IO.FS.readBinFile inner).toBaseIO with
      | .ok content => files := files.withFile location content
      | .error _ => files ← loadDirectory inner location depth (files.withDirectories location)
    return files
where
  /-- The names in a directory of the disk. -/
  directoryNames (path : String) : IO (List String) := do
    let working ← IO.currentDir
    let found ← ((working / path).readDir).toBaseIO
    match found with
    | .ok entries => return entries.toList.map (·.fileName)
    | .error _ => return []

/-- Writes files to the disk, with the directories around them. -/
def storeFiles (changed : List (Location × ByteArray)) : IO Unit :=
  for (location, content) in changed do
    unless location.dropLast.isEmpty do
      IO.FS.createDirAll ("/".intercalate location.dropLast)
    IO.FS.writeBinFile ("/".intercalate location) content

/-- Carries out what a command line asks for in the working directory. The result is the exit code. -/
def carryOut (invocation : Invocation) : IO UInt32 := do
  let home ← IO.currentDir
  let files ← loadDirectory "." [] 64 { home := home.toString }
  let (result, world) := (invocation.run files.storedTrees).run.run { files }
  storeFiles (files.changedFiles world.files)
  for notice in world.notices do
    IO.eprintln notice.line
  IO.print (String.ofList world.printed)
  match result with
  | .ok () => return 0
  | .error failure =>
    IO.eprintln ("Error: " ++ failure.message)
    return 1

end CallersFirst

/-- Reads the command line and carries it out. -/
def main (words : List String) : IO UInt32 := do
  match CallersFirst.Invocation.parse words with
  | .ok invocation => CallersFirst.carryOut invocation
  | .error .help =>
    IO.println CallersFirst.usage
    return 0
  | .error .version =>
    IO.println CallersFirst.versionText
    return 0
  | .error error =>
    IO.eprintln ("error: " ++ error.message)
    return 2
