import CallersFirst.Settings
import CallersFirst.SyntaxTree

/-! Scopes, whose direct children can change places, and how they are found in a tree. -/

namespace CallersFirst

/-- What a scope belongs to. -/
inductive ScopeKind where
  /-- The top level of a file. -/
  | program
  /-- The statement block of a function body. -/
  | block
  /-- The body of a class. -/
  | classBody
deriving DecidableEq, Repr

/-- A node whose direct children can be put in order. -/
structure Scope where
  /-- What the scope belongs to. -/
  kind : ScopeKind
  /-- The node whose children are meant. -/
  node : Node
  /-- The name of the enclosing class, by which its methods may be called. -/
  className : Option String := none
deriving Repr

namespace Visit

/-- Whether a node was reached as the body of a function. -/
def isFunctionBody (visit : Visit) : Bool :=
  match visit.parent with
  | none => false
  | some parent => parent.expressionKind = .functionBoundary && visit.node.field = some .body

/-- The name of the construct that a node was reached from. -/
def parentName (source : Text) (visit : Visit) : Option String :=
  (visit.parent.bind (·.child? .name)).map (·.name source)

/-- The scope that a visited node opens under the given settings. -/
def scope? (source : Text) (options : OrderingSettings) (visit : Visit) : Option Scope :=
  if options.classBodies && visit.node.kind == "class_body" then
    some ⟨.classBody, visit.node, visit.parentName source⟩
  else if options.nestedScopes && visit.node.kind == "statement_block" && visit.isFunctionBody then
    some ⟨.block, visit.node, none⟩
  else none

end Visit

/-- The scopes of a tree, every scope before the ones nested in it. -/
def Scope.discover (source : Text) (options : OrderingSettings) (root : Node) : List Scope :=
  -- The program always counts, whatever the kind of its root.
  ⟨.program, root, none⟩ ::
    (root.visits (fun _ => false) none).filterMap (·.scope? source options)

end CallersFirst
