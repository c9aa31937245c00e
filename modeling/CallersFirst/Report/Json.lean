import CallersFirst.Json
import CallersFirst.Report

/-! Reports as JSON. -/

namespace CallersFirst

/-- A span as its two ends. -/
def Span.json (span : Span) : Json :=
  .object [("start", .number span.start), ("end", .number span.stop)]

/-- The word for a kind of unit. -/
def UnitKind.json : UnitKind → Json
  | .declaration => .ofString "declaration"
  | .expression => .ofString "expression"
  | .method => .ofString "method"

/-- A unit with all its fields. -/
def CallableUnit.json (unit : CallableUnit) : Json :=
  .object [
    ("name", .ofString unit.name),
    ("kind", unit.kind.json),
    ("range", unit.span.json),
    ("leading_comments", .list Span.json unit.comments),
    ("calls", .list .ofString unit.calls)]

/-- The counts that describe a graph. -/
def GraphStatistics.json (statistics : GraphStatistics) : Json :=
  .object [
    ("total_units", .number statistics.totalUnits),
    ("total_calls", .number statistics.totalCalls),
    ("roots", .number statistics.roots),
    ("self_calls", .number statistics.selfCalls),
    ("cycles", .number statistics.cycles),
    ("duplicates", .number statistics.duplicates),
    ("max_in_degree", .number statistics.maxInDegree)]

/-- A splice with its replacement. -/
def Splice.json (splice : Splice) : Json :=
  .object [("range", splice.span.json), ("replacement", .string splice.replacement)]

/-- The word for a kind of scope. -/
def ScopeKind.json : ScopeKind → Json
  | .program => .ofString "program"
  | .block => .ofString "block"
  | .classBody => .ofString "class_body"

/-- The report of a scope with all its fields. -/
def ScopeReport.json (report : ScopeReport) : Json :=
  .object [
    ("kind", report.kind.json),
    ("class_name", .orNull .ofString report.className),
    ("span", report.span.json),
    ("line", .number report.line),
    ("units", .list CallableUnit.json report.units),
    ("duplicates", .list .ofString report.duplicates),
    ("cycles", .list (.list .ofString) report.cycles),
    ("stats", report.statistics.json),
    ("source_order", .list .ofString report.sourceOrder),
    ("order", .list .ofString report.order),
    ("splice", .orNull Splice.json report.splice)]

/-- The report of a file with those of its scopes. -/
def FileReport.json (report : FileReport) : Json :=
  .object [("path", .ofString report.path), ("scopes", .list ScopeReport.json report.scopes)]

end CallersFirst
