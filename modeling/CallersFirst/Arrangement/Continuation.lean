import CallersFirst.CallableUnit
import CallersFirst.Text

/-! When a statement without a semicolon would be read together with the text after it. -/

namespace CallersFirst

/-- The characters that continue an expression across a line break. -/
def continuationStarts : List Char :=
  ['(', '[', '\x60', '+', '-', '/']

namespace Text

mutual

/-- The first character of a text outside of blanks and comments. -/
def nextSignificant : Text → Option Char
  | [] => none
  | '/' :: '/' :: rest => afterLineComment rest
  | '/' :: '*' :: rest => afterBlockComment rest
  | c :: rest => if isBlank c then nextSignificant rest else some c

/-- The first significant character after the line comment in which a text starts. -/
def afterLineComment : Text → Option Char
  | [] => none
  | '\n' :: rest => nextSignificant rest
  | _ :: rest => afterLineComment rest

/-- The first significant character after the block comment in which a text starts. -/
def afterBlockComment : Text → Option Char
  | [] => none
  | '*' :: '/' :: rest => nextSignificant rest
  | _ :: rest => afterBlockComment rest

end

end Text

/-- Whether a unit with this text ends by itself, whatever follows it.

Declarations and methods end with their closing brace, and a bound function only with a semicolon. -/
def CallableUnit.isTerminated (unit : CallableUnit) (text : Text) : Bool :=
  match text.trimEnd.getLast? with
  | some ';' => true
  | some '}' => unit.kind ≠ .expression
  | _ => false

/-- Whether a text starts, after blanks and comments, with a character that continues an expression.
Where it holds nothing else, the text behind it decides. -/
def continuesExpression (text behind : Text) : Bool :=
  match text.nextSignificant <|> behind.nextSignificant with
  | some c => c ∈ continuationStarts
  | none => false

end CallersFirst
