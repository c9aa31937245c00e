import CallersFirst.Command.Check

/-! Telling the units, calls and orders of a file. -/

namespace CallersFirst

namespace Command

/-- The reports of the scopes of a file that have units. -/
def outlines (parser : Parser) (settings : Settings) (path : String) : Command (List ScopeReport) := do
  let file ← parse parser settings path
  if file.tree.hasErrors then
    say [⟨.warn, s!"{path} has syntax errors; ranges may be unreliable"⟩]
  let analyses := analyzeTree file.source settings.ordering file.tree
  say (analyses.flatMap (·.notices))
  return (analyses.map (·.report file.source)).filter (·.units ≠ [])

/-- Prints what is known about the scopes of a file. -/
def outline (parser : Parser) (settings : Settings) (path : String) (format : Option String) :
    Command Unit := do
  let reports ← outlines parser settings path
  printReports (format.getD settings.output.format) ScopeReport.json (·.outline) reports

end Command

end CallersFirst
