import CallersFirst.Extraction

/-! Resolution of the calls in a body to the sibling units they invoke. -/

namespace CallersFirst

/-- The name a call invokes, if the scope resolves callees of this shape.

Outside of class bodies that is a bare name. In a class body it is a plain member of `this` or of the
class itself. -/
def Node.callee? (source : Text) (scope : ScopeKind) (className : Option String) (call : Node) :
    Option String := do
  let function ← call.child? .function
  if scope = .classBody then
    guard (function.kind == "member_expression")
    let object ← function.child? .object
    let property ← function.child? .property
    guard (isPlainMemberName property.kind)
    guard (object.kind == "this" ||
      (object.kind == "identifier" && className = some (object.name source)))
    return property.name source
  else
    guard (function.kind == "identifier")
    return function.name source

/-- The calls met in a body, leaving out those inside nested functions. -/
def Node.directCalls (body : Node) : List Node :=
  ((body.visits (·.expressionKind = .functionBoundary) none).map (·.node)).filter
    (·.expressionKind = .call)

/-- The siblings that a body invokes, each once and in order of first appearance. -/
def Node.siblingCalls (source : Text) (siblings : List String) (scope : ScopeKind)
    (className : Option String) (body : Node) : List String :=
  ((body.directCalls.filterMap (·.callee? source scope className)).filter (· ∈ siblings)).eraseDups

/-- A unit with the calls found in its bodies. -/
def ExtractedUnit.resolve (source : Text) (siblings : List String) (scope : Scope)
    (extracted : ExtractedUnit) : CallableUnit :=
  (extracted.bodies.flatMap (·.siblingCalls source siblings scope.kind scope.className)).foldl
    CallableUnit.addCall extracted.unit

/-- The callable units of a scope with the calls among them. -/
def Scope.resolvedUnits (source : Text) (scope : Scope) : List CallableUnit :=
  let extracted := scope.extract source
  let siblings := extracted.map (·.unit.name)
  extracted.map (·.resolve source siblings scope)

end CallersFirst
