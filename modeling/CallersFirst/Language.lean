import CallersFirst.Path
import CallersFirst.SyntaxTree

/-! The languages whose functions can be put in order, and the grammars their files are read with. -/

namespace CallersFirst

/-- A language that can be read. -/
inductive Language where
  /-- JavaScript, JSX included. -/
  | javascript
  /-- TypeScript. -/
  | typescript
deriving DecidableEq, Repr

/-- A grammar that a parser can apply. -/
inductive Grammar where
  /-- JavaScript with JSX. -/
  | javascript
  /-- TypeScript without JSX. -/
  | typescript
  /-- TypeScript with JSX. -/
  | tsx
deriving DecidableEq, Repr

/-- A parser gives the syntax tree of a text in a grammar, or fails. -/
abbrev Parser := Grammar → Text → Option SyntaxTree

namespace Language

/-- All languages. -/
def all : List Language :=
  [.javascript, .typescript]

/-- The name of a language in the settings. -/
def name : Language → String
  | .javascript => "javascript"
  | .typescript => "typescript"

/-- The name of a language in running text. -/
def title : Language → String
  | .javascript => "JavaScript"
  | .typescript => "TypeScript"

/-- The extensions of the files written in a language. -/
def extensions : Language → List String
  | .javascript => ["js", "jsx", "mjs", "cjs"]
  | .typescript => ["ts", "tsx", "mts", "cts"]

/-- The language with a given name. -/
def ofName? (name : String) : Option Language :=
  all.find? (·.name = name)

/-- The language of a file among those supported, told by its extension. -/
def ofPath? (supported : List Language) (path : String) : Option Language := do
  let extension ← Path.extension? path
  supported.find? (·.extensions.contains extension)

/-- The grammar with which a file of a language is read. Only one extension admits JSX in TypeScript. -/
def grammar (language : Language) (path : String) : Grammar :=
  match language with
  | .javascript => .javascript
  | .typescript => if Path.extension? path = some "tsx" then .tsx else .typescript

end Language

end CallersFirst
