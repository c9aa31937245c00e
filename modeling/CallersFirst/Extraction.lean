import CallersFirst.CallableUnit
import CallersFirst.Scope

/-! Extraction of the callable units of a scope, with their extents and attached comments. -/

namespace CallersFirst

/-- A unit together with the bodies in which its calls are searched for. -/
structure ExtractedUnit where
  /-- The unit, its calls not yet known. -/
  unit : CallableUnit
  /-- The bodies of the unit: one for most, two for a pair of accessors. -/
  bodies : List Node
deriving Repr

/-- What a single statement defines. -/
structure Definition where
  /-- The name that is bound. -/
  name : String
  /-- How the definition is written. -/
  kind : UnitKind
  /-- The bytes of the statement. -/
  span : Span
  /-- The body of the function, if it has one. -/
  body : Option Node
deriving Repr

namespace Node

/-- A labelled child is smaller than its parent. -/
theorem sizeOf_child?_lt {node child : Node} {field : Field} (found : node.child? field = some child) :
    sizeOf child < sizeOf node := by
  -- The child is a member of the list that the parent holds.
  have member : child ∈ node.children := List.mem_of_find?_eq_some found
  have smaller := List.sizeOf_lt_of_mem member
  cases node
  simp only [Node.mk.sizeOf_spec] at *
  omega

/-- The end of a statement, leaving out a semicolon that stands on a later line than the rest.

Code written without semicolons puts one in front of a line that starts with a bracket. It belongs to
that line, and must not move away from it. -/
def statementStop (source : Text) (node : Node) : Nat :=
  match _found : node.child? .declaration with
  | some declaration =>
    if declaration.span.stop = node.span.stop then statementStop source declaration
    else ownStop node
  | none => ownStop node
termination_by sizeOf node
decreasing_by exact sizeOf_child?_lt _found
where
  /-- The end of a statement that shares its end with no declaration inside it. -/
  ownStop (node : Node) : Nat :=
    match node.children.reverse with
    | last :: before :: _ =>
      if last.isSemicolon && before.stopRow source < last.startRow source then before.span.stop
      else node.span.stop
    | _ => node.span.stop

/-- The variable declarators of a declaration. -/
def declarators (node : Node) : List Node :=
  node.namedChildren.filter (·.kind == "variable_declarator")

/-- The function that a statement binds as the value of its only variable. -/
def binding? (source : Text) (node : Node) : Option Definition :=
  -- Several variables cannot move as one definition.
  match node.declarators with
  | [declarator] => do
    let name ← declarator.child? .name
    guard (name.kind == "identifier")
    let value ← declarator.child? .value
    guard (isFunctionValue value.kind)
    return ⟨name.name source, .expression, ⟨node.span.start, node.statementStop source⟩,
      value.child? .body⟩
  | _ => none

/-- The named function that a statement exports as a value. -/
def exportedValue? (source : Text) (node : Node) : Option Definition := do
  let value ← node.child? .value
  guard (isFunctionValue value.kind)
  let name ← value.child? .name
  return ⟨name.name source, .declaration, ⟨node.span.start, node.statementStop source⟩,
    value.child? .body⟩

/-- What a statement outside of class bodies defines. -/
def statementDefinition? (source : Text) (node : Node) : Option Definition :=
  match node.statementKind with
  | .functionDeclaration => do
    let name ← node.child? .name
    return ⟨name.name source, .declaration, node.span, node.child? .body⟩
  | .variableDeclaration => node.binding? source
  | .exported =>
    match _found : node.child? .declaration with
    | some declaration => do
      -- The export keyword moves with what it exports.
      let definition ← statementDefinition? source declaration
      return { definition with span := ⟨node.span.start, node.statementStop source⟩ }
    | none => node.exportedValue? source
  | _ => none
termination_by sizeOf node
decreasing_by exact sizeOf_child?_lt _found

/-- What a member of a class body defines. -/
def methodDefinition? (source : Text) (node : Node) : Option Definition := do
  guard (node.statementKind = .method)
  let name ← node.child? .name
  guard (isPlainMemberName name.kind)
  return ⟨name.name source, .method, node.span, node.child? .body⟩

/-- What a direct child of a scope defines. -/
def definition? (source : Text) (scope : ScopeKind) (node : Node) : Option Definition :=
  if scope = .classBody then node.methodDefinition? source else node.statementDefinition? source

/-- Whether a method is a getter or a setter. -/
def isAccessor (node : Node) : Bool :=
  node.children.any fun child => child.kind == "get" || child.kind == "set"

/-- Whether a node may stand between the parts of one unit. -/
def isFiller (node : Node) : Bool :=
  node.statementKind = .comment || node.isSemicolon

/-- The name that an overload signature declares, seen through an export. -/
def signatureName? (source : Text) (node : Node) : Option String :=
  match node.statementKind with
  | .signature => (node.child? .name).map (·.name source)
  | .exported => do
    let declaration ← node.child? .declaration
    guard (declaration.statementKind = .signature)
    return (← declaration.child? .name).name source
  | _ => none

end Node

/-- A child of a scope and the siblings before it, nearest first. -/
structure Position where
  /-- The child itself. -/
  node : Node
  /-- The siblings before it, nearest first. -/
  preceding : List Node
deriving Repr

namespace Extraction

/-- The earliest sibling that belongs to a unit, looking back over decorators and overload signatures.

Comments and semicolons are passed over, and count only if something before them belongs to the unit. -/
def leadIn (source : Text) (name : String) (first : Position) : List Node → Position
  | [] => first
  | previous :: earlier =>
    match previous.statementKind with
    | .decorator => leadIn source name ⟨previous, earlier⟩ earlier
    | .signature | .exported =>
      if previous.signatureName? source = some name then
        leadIn source name ⟨previous, earlier⟩ earlier
      else first
    | _ => if previous.isFiller then leadIn source name first earlier else first

/-- Whether only blanks with at most one line feed stand between two offsets. -/
def isAdjacent (source : Text) (stop start : Nat) : Bool :=
  match source.slice? stop start with
  | some gap => Text.isBlankText gap && gap.count '\n' ≤ 1
  | none => false

/-- Whether a node starts on the line on which the code before it ends. -/
def trailsCode (source : Text) (node : Node) : List Node → Bool
  | [] => false
  | before :: _ => before.statementKind ≠ .comment && before.stopRow source = node.startRow source

/-- The comments attached above an offset, nearest first: the run stops at a blank line, at code, and
at a comment that shares its line with the code before it. -/
def attachedComments (source : Text) (start : Nat) : List Node → List Span
  | [] => []
  | candidate :: earlier =>
    if candidate.statementKind = .comment && isAdjacent source candidate.span.stop start
        && !trailsCode source candidate earlier then
      candidate.span :: attachedComments source candidate.span.start earlier
    else []

/-- The unit that a definition makes at its place among its siblings. -/
def unitAt (source : Text) (definition : Definition) (position : Position) : ExtractedUnit :=
  let first := leadIn source definition.name position position.preceding
  { unit := {
      name := definition.name
      kind := definition.kind
      span := ⟨first.node.span.start, definition.span.stop⟩
      comments := (attachedComments source first.node.span.start first.preceding).reverse }
    bodies := definition.body.toList }

/-- Extends a unit by the accessor that forms a pair with it. -/
def withPartner (first : ExtractedUnit) (partner : Definition) : ExtractedUnit :=
  { unit := { first.unit with span := ⟨first.unit.span.start, partner.span.stop⟩ }
    bodies := first.bodies ++ partner.body.toList }

/-- Scans the remaining children of a scope.

`found` holds the units so far, latest first, and `unpaired` tells whether the latest is an accessor
that may still be joined by the next one. -/
def scan (source : Text) (scope : ScopeKind) (preceding : List Node) (found : List ExtractedUnit)
    (unpaired : Bool) : List Node → List ExtractedUnit
  | [] => found.reverse
  | child :: rest =>
    match child.definition? source scope with
    | none => scan source scope (child :: preceding) found (unpaired && child.isFiller) rest
    | some definition =>
      let accessor := definition.kind = .method && child.isAccessor
      let fresh := unitAt source definition ⟨child, preceding⟩ :: found
      match found with
      | [] => scan source scope (child :: preceding) fresh accessor rest
      | latest :: others =>
        -- A getter and a setter of one name side by side move as one unit.
        if accessor && unpaired && latest.unit.name = definition.name then
          scan source scope (child :: preceding) (withPartner latest definition :: others) false rest
        else scan source scope (child :: preceding) fresh accessor rest

end Extraction

/-- The callable units among the direct children of a scope, in source order. -/
def Scope.extract (source : Text) (scope : Scope) : List ExtractedUnit :=
  Extraction.scan source scope.kind [] [] false scope.node.children

end CallersFirst
