import CallersFirst.Analysis

/-! What is told about scopes and files, line by line. -/

namespace CallersFirst

/-- The scopes of a file that are not in readable order. -/
structure FileReport where
  /-- The path of the file. -/
  path : String
  /-- The reports of the scopes. -/
  scopes : List ScopeReport
deriving DecidableEq, Repr

namespace ScopeReport

/-- What the units of a scope are. -/
def title (report : ScopeReport) : String :=
  match report.kind, report.className with
  | .program, _ => "top-level functions"
  | .block, _ => "nested functions"
  | .classBody, some name => s!"methods of class {name}"
  | .classBody, none => "methods of anonymous class"

/-- Names one after another. -/
def listed (names : List String) : String :=
  ", ".intercalate names

/-- The lines that tell the units, calls, cycles and orders of a scope. -/
def outline (report : ScopeReport) : List String :=
  let title := report.title
  let line := report.line
  let calling := report.units.filter (·.calls ≠ [])
  [s!"{title} (line {line})",
    "  source order: " ++ listed report.sourceOrder,
    "  readable order: " ++ listed report.order]
    ++ calling.map (fun unit => "  " ++ unit.name ++ " -> " ++ listed unit.calls)
    ++ report.cycles.map (fun cycle => "  cycle: " ++ " -> ".intercalate cycle)
    ++ report.duplicates.map ("  duplicate: " ++ ·)
    ++ if report.needsReorder then ["  needs reordering"] else []

/-- The line that complains about a scope of the file at a path. -/
def complaint (path : String) (report : ScopeReport) : String :=
  let line := report.line
  let title := report.title
  s!"{path}:{line}: {title} not in readable order; expected: " ++ listed report.order

end ScopeReport

/-- The lines that complain about a file. -/
def FileReport.complaints (report : FileReport) : List String :=
  report.scopes.map (·.complaint report.path)

end CallersFirst
