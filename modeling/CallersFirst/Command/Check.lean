import CallersFirst.Command
import CallersFirst.Report.Json
import CallersFirst.Settling

/-! Checking whether files are in readable order. -/

namespace CallersFirst

namespace Command

/-- The report of a file, if it can be analysed and one of its scopes is out of order. -/
def checkFile (parser : Parser) (settings : Settings) (path : String) : Command (Option FileReport) := do
  let file ← parse parser settings path
  if file.tree.hasErrors then
    say [Settled.skipNotice path]
    return none
  let analyses := analyzeTree file.source settings.ordering file.tree
  say (analyses.flatMap (·.notices))
  let scopes := (analyses.map (·.report file.source)).filter (·.needsReorder)
  return if scopes.isEmpty then none else some ⟨path, scopes⟩

/-- The reports of the files that are out of order. -/
def checkEach (parser : Parser) (settings : Settings) : List String → Command (List FileReport)
  | [] => return []
  | path :: rest => do
    let report ← checkFile parser settings path
    let others ← checkEach parser settings rest
    return report.toList ++ others

/-- The reports of the files at or below some paths that are out of order. -/
def checkFiles (parser : Parser) (settings : Settings) (paths : List String) :
    Command (List FileReport) := do
  let files ← sources settings paths
  let count := files.length
  inform s!"🔍 Checking {count} files"
  checkEach parser settings files

/-- Prints values in a format: as one indented text, or by lines for each. -/
def printReports {α : Type} (format : String) (json : α → Json) (lines : α → List String)
    (reports : List α) : Command Unit :=
  match format with
  | "json" => printLines [(Json.list json reports).pretty 0]
  | "text" => printLines ((reports.flatMap lines).map String.toList)
  | other => throw (.reportFormat other)

/-- Checks the files at or below some paths, prints what is out of order and fails if anything is. -/
def check (parser : Parser) (settings : Settings) (paths : List String) (format : Option String) :
    Command Unit := do
  let reports ← checkFiles parser settings paths
  printReports (format.getD settings.output.format) FileReport.json (·.complaints) reports
  if reports.isEmpty then inform "✅ All functions read top to bottom"
  else throw (.outOfOrder reports.length)

end Command

end CallersFirst
