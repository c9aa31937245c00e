import CallersFirst.Span
import CallersFirst.Text
import CallersFirst.SyntaxTree.Kind

/-! Syntax trees as a parser delivers them, and the walk over their named nodes. -/

namespace CallersFirst

/-- The label under which a parent finds one of its children. -/
inductive Field where
  /-- The name that a definition binds. -/
  | name
  /-- The body of a function or class. -/
  | body
  /-- What an export statement declares. -/
  | declaration
  /-- The initial value of a variable, or an exported value. -/
  | value
  /-- What a call invokes. -/
  | function
  /-- What a member is taken of. -/
  | object
  /-- The member that is taken. -/
  | property
deriving DecidableEq, Repr

/-- A node of a syntax tree. -/
structure Node where
  /-- The name that the grammar gives to nodes of this kind. -/
  kind : String
  /-- Whether the node is a construct of its own rather than a mere token. -/
  named : Bool
  /-- The bytes that the node covers. -/
  span : Span
  /-- The label under which the parent finds this node. -/
  field : Option Field
  /-- The parts of the node, in source order. -/
  children : List Node
deriving Repr

/-- The syntax tree of a whole text. -/
structure SyntaxTree where
  /-- The node that covers the program. -/
  root : Node
  /-- Whether the parser had to recover from errors. -/
  hasErrors : Bool
deriving Repr

/-- A node met on a walk, together with the node it was reached from. -/
structure Visit where
  /-- The parent of the node, unless the walk started there. -/
  parent : Option Node
  /-- The node itself. -/
  node : Node
deriving Repr

namespace Node

/-- The child that a node finds under a label. -/
def child? (node : Node) (field : Field) : Option Node :=
  node.children.find? (·.field = some field)

/-- The children that are constructs of their own. -/
def namedChildren (node : Node) : List Node :=
  node.children.filter (·.named)

/-- The text that a node covers. -/
def text (source : Text) (node : Node) : Text :=
  source.slice node.span.start node.span.stop

/-- The text that a node covers, as a name. -/
def name (source : Text) (node : Node) : String :=
  String.ofList (node.text source)

/-- The role of a node as a child of a scope. -/
def statementKind (node : Node) : StatementKind :=
  .ofName node.kind

/-- The role of a node in a search for calls. -/
def expressionKind (node : Node) : ExpressionKind :=
  .ofName node.kind

/-- Whether a node is a lone semicolon. -/
def isSemicolon (node : Node) : Bool :=
  node.kind == ";"

/-- The row on which a node starts. -/
def startRow (source : Text) (node : Node) : Nat :=
  source.row node.span.start

/-- The row on which a node ends. -/
def stopRow (source : Text) (node : Node) : Nat :=
  source.row node.span.stop

mutual

/-- The nodes met in pre-order through named children, leaving out what lies at or below a closed node. -/
def visits (closed : Node → Bool) (parent : Option Node) : Node → List Visit
  | node@⟨_, _, _, _, children⟩ =>
    if closed node then [] else ⟨parent, node⟩ :: visitsBelow closed node children

/-- The nodes met in the named ones among the children of a node. -/
def visitsBelow (closed : Node → Bool) (parent : Node) : List Node → List Visit
  | [] => []
  | child :: rest =>
    (if child.named then visits closed (some parent) child else []) ++ visitsBelow closed parent rest

end

mutual

/-- All nodes of a tree in pre-order, tokens included. -/
def preorder : Node → List Node
  | node@⟨_, _, _, _, children⟩ => node :: preorderAll children

/-- All nodes of a list of trees in pre-order. -/
def preorderAll : List Node → List Node
  | [] => []
  | node :: rest => preorder node ++ preorderAll rest

end

/-- A walk lists the node it starts at and then what lies in its named children. -/
theorem visits_eq (closed : Node → Bool) (parent : Option Node) (node : Node) :
    node.visits closed parent =
      if closed node then [] else ⟨parent, node⟩ :: visitsBelow closed node node.children := by
  cases node
  rfl

end Node

end CallersFirst
