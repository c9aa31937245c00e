import CallersFirst.Command
import CallersFirst.Settling

/-! Putting files in readable order. -/

namespace CallersFirst

/-- What a run over files did. -/
structure FixSummary where
  /-- How many files were looked at. -/
  filesChecked : Nat
  /-- The paths of the files that were out of order. -/
  filesChanged : List String
deriving DecidableEq, Repr

namespace Command

/-- Writes a text to a file, unless the text that is there by now has another digest than the one that
was read before. -/
def replace (path expected : String) (text : Text) : Command Unit := do
  match (← files).readText path with
  | .error cause => throw (.io cause)
  | .ok current =>
    if current.hash = expected then write path text
    else
      say [⟨.warn, s!"{path} changed on disk; not writing"⟩]
      throw (.changedMeanwhile expected current.hash)

/-- Puts a file in readable order, or only tells that this would change it. The result is whether it
is out of order. -/
def fixFile (parser : Parser) (settings : Settings) (dryRun : Bool) (path : String) : Command Bool := do
  let file ← parse parser settings path
  let settled := settle parser settings file
  say settled.notices
  match ← attempt settled.result with
  | none => return false
  | some text =>
    if dryRun then printLines [("would reorder " ++ path).toList]
    else
      replace path file.contentHash text
      inform s!"✅ Reordered {path}"
    return true

/-- Puts files in readable order, one after another. The result is the list of those out of order. -/
def fixEach (parser : Parser) (settings : Settings) (dryRun : Bool) :
    List String → Command (List String)
  | [] => return []
  | path :: rest => do
    let changed ← fixFile parser settings dryRun path
    let others ← fixEach parser settings dryRun rest
    return if changed then path :: others else others

/-- Puts the files at or below some paths in readable order. -/
def fix (parser : Parser) (settings : Settings) (paths : List String) (dryRun : Bool) :
    Command FixSummary := do
  let files ← sources settings paths
  if dryRun then inform "📋 Dry run mode - showing what would be reordered"
  let changed ← fixEach parser settings dryRun files
  let count := changed.length
  let total := files.length
  inform s!"🎉 {count} of {total} files reordered"
  return ⟨total, changed⟩

end Command

end CallersFirst
