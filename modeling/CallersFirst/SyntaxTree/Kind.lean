/-! What the node kinds of the JavaScript and TypeScript grammars mean for reordering. -/

namespace CallersFirst

/-- The role of a direct child of a scope. -/
inductive StatementKind where
  /-- A named function, with or without a star. -/
  | functionDeclaration
  /-- Variables with their initial values. -/
  | variableDeclaration
  /-- An exported declaration or value. -/
  | exported
  /-- A method with its body. -/
  | method
  /-- An overload signature, which moves with its implementation. -/
  | signature
  /-- A decorator of the definition below it. -/
  | decorator
  /-- A comment. -/
  | comment
  /-- Anything else. -/
  | other
deriving DecidableEq, Repr

/-- The role of a child of a scope, by the name of its node kind. -/
def StatementKind.ofName : String → StatementKind
  | "function_declaration" | "generator_function_declaration" => .functionDeclaration
  | "lexical_declaration" | "variable_declaration" => .variableDeclaration
  | "export_statement" => .exported
  | "method_definition" => .method
  | "function_signature" | "method_signature" => .signature
  | "decorator" => .decorator
  | "comment" => .comment
  | _ => .other

/-- The role of a node met while a body is searched for calls. -/
inductive ExpressionKind where
  /-- A nested function, to which the calls inside it belong. -/
  | functionBoundary
  /-- A call. -/
  | call
  /-- Anything else. -/
  | other
deriving DecidableEq, Repr

/-- The role of a node in a search for calls, by the name of its kind. -/
def ExpressionKind.ofName : String → ExpressionKind
  | "function_declaration" | "generator_function_declaration" | "function_expression" | "function"
  | "generator_function" | "arrow_function" | "method_definition" => .functionBoundary
  | "call_expression" => .call
  | _ => .other

/-- Whether an initial value of this kind is a function. -/
def isFunctionValue (kind : String) : Bool :=
  kind ∈ ["arrow_function", "function_expression", "function", "generator_function"]

/-- Whether a member name of this kind is written plainly rather than computed. -/
def isPlainMemberName (kind : String) : Bool :=
  kind ∈ ["property_identifier", "private_property_identifier"]

end CallersFirst
