import CallersFirst.Arrangement
import CallersFirst.CallGraph.Order
import CallersFirst.Notice
import CallersFirst.Resolution

/-! Analysis of the scopes of one text, and the text with its scopes in readable order. -/

namespace CallersFirst

/-- What was found out about one scope. -/
structure ScopeAnalysis where
  /-- The scope. -/
  scope : Scope
  /-- The units of the scope and the calls among them. -/
  graph : CallGraph
  /-- The names of the units in readable order. -/
  order : List String
  /-- The splice that puts the units in that order, or why there is none. -/
  planned : Except ArrangeError (Option Splice)

/-- What is reported about one scope. -/
structure ScopeReport where
  /-- What the scope belongs to. -/
  kind : ScopeKind
  /-- The name of the class, for a class body whose class has one. -/
  className : Option String
  /-- The bytes of the scope. -/
  span : Span
  /-- The line on which the scope starts. -/
  line : Nat
  /-- The units that take part, in source order. -/
  units : List CallableUnit
  /-- The names of the units left out because an earlier one has the same name. -/
  duplicates : List String
  /-- The cycles among the units. -/
  cycles : List (List String)
  /-- The counts that describe the graph. -/
  statistics : GraphStatistics
  /-- The names of the units in source order. -/
  sourceOrder : List String
  /-- The names of the units in readable order. -/
  order : List String
  /-- The splice that puts the scope in readable order, if it is not in that order already. -/
  splice : Option Splice
deriving DecidableEq, Repr

/-- Whether a report asks for a splice. -/
def ScopeReport.needsReorder (report : ScopeReport) : Bool :=
  report.splice.isSome

/-- Finds the units of a scope, orders them and plans the splice. -/
def Scope.analyze (source : Text) (scope : Scope) : ScopeAnalysis :=
  let graph := CallGraph.build (scope.resolvedUnits source)
  let order := graph.readableOrder
  ⟨scope, graph, order, plan source graph.units order⟩

/-- The word for a kind of scope in notices. -/
def ScopeKind.word : ScopeKind → String
  | .program => "Program"
  | .block => "Block"
  | .classBody => "ClassBody"

/-- What is said about a unit that is left out. -/
def CallableUnit.duplicateNotice (unit : CallableUnit) : Notice :=
  let name := unit.name
  let start := unit.span.start
  ⟨.warn, s!"Duplicate definition of `{name}` at byte {start}; excluding it from ordering"⟩

namespace ScopeAnalysis

/-- The splice of a scope, if one was planned. -/
def splice? (analysis : ScopeAnalysis) : Option Splice :=
  match analysis.planned with
  | .ok splice => splice
  | .error _ => none

/-- What is said about a scope: the units left out, and a refusal to rearrange it. -/
def notices (analysis : ScopeAnalysis) : List Notice :=
  analysis.graph.rejected.map (·.duplicateNotice) ++
    match analysis.planned with
    | .ok _ => []
    | .error refusal =>
      let kind := analysis.scope.kind.word
      let start := analysis.scope.node.span.start
      let reason := refusal.message
      [⟨.warn, s!"Skipping rewrite of {kind} scope at byte {start}: {reason}"⟩]

/-- The report of a scope. -/
def report (source : Text) (analysis : ScopeAnalysis) : ScopeReport :=
  { kind := analysis.scope.kind
    className := analysis.scope.className
    span := analysis.scope.node.span
    line := source.lineOf analysis.scope.node.span.start
    units := analysis.graph.units
    duplicates := analysis.graph.duplicates
    cycles := analysis.graph.cycles
    statistics := analysis.graph.statistics
    sourceOrder := analysis.graph.names
    order := analysis.order
    splice := analysis.splice? }

end ScopeAnalysis

/-- The analyses of all scopes of a tree, every scope before the ones nested in it. -/
def analyzeTree (source : Text) (options : OrderingSettings) (tree : SyntaxTree) :
    List ScopeAnalysis :=
  (Scope.discover source options tree.root).map (·.analyze source)

namespace Splice

/-- Whether a splice overlaps one of those taken before. -/
def clashes (taken : List Splice) (splice : Splice) : Bool :=
  taken.any (·.span.overlaps splice.span)

/-- The splices of a list that overlap none taken before them. -/
def accepted (taken : List Splice) : List Splice → List Splice
  | [] => []
  | splice :: rest =>
    if splice.clashes taken then accepted taken rest else splice :: accepted (splice :: taken) rest

/-- The splices of a list that overlap one taken before them. -/
def deferred (taken : List Splice) : List Splice → List Splice
  | [] => []
  | splice :: rest =>
    if splice.clashes taken then splice :: deferred taken rest else deferred (splice :: taken) rest

/-- Splices by where they start, the last one first, so that each leaves the others in place. -/
def backToFront (splices : List Splice) : List Splice :=
  splices.mergeSort fun first second => second.span.start ≤ first.span.start

end Splice

/-- What one round over a text gives. -/
structure Outcome where
  /-- The analyses of its scopes. -/
  analyses : List ScopeAnalysis
  /-- The text with the accepted splices made, if there are any. -/
  newText : Option Text
  /-- How many splices are left for a later round because they overlap an accepted one. -/
  deferred : Nat

namespace Outcome

/-- The reports of all scopes. -/
def reports (source : Text) (outcome : Outcome) : List ScopeReport :=
  outcome.analyses.map (·.report source)

/-- What is said about all scopes. -/
def notices (outcome : Outcome) : List Notice :=
  outcome.analyses.flatMap (·.notices)

end Outcome

/-- Analyses all scopes of a text and makes the splices that do not overlap, outer scopes first. -/
def reorder (source : Text) (options : OrderingSettings) (tree : SyntaxTree) : Outcome :=
  let analyses := analyzeTree source options tree
  let splices := analyses.filterMap (·.splice?)
  let accepted := Splice.accepted [] splices
  { analyses
    newText :=
      if accepted.isEmpty then none
      else Splice.applyAll? (Splice.backToFront accepted) source
    deferred := (Splice.deferred [] splices).length }

end CallersFirst
