import CallersFirst.ParsedFile
import CallersFirst.SyntaxTree.Listing

/-! Syntax trees that a parser has left among the files of a project. -/

namespace CallersFirst

/-- The name of the directory with the trees of a grammar. -/
def Grammar.directoryName : Grammar → String
  | .javascript => "javascript"
  | .typescript => "typescript"
  | .tsx => "tsx"

/-- The path of the file with the tree of a text. Trees are found by the digest of their text. -/
def treePath (grammar : Grammar) (text : Text) : String :=
  ".trees/" ++ grammar.directoryName ++ "/" ++ text.hash

/-- The parser that looks up the trees stored among files. -/
def FileTree.storedTrees (files : FileTree) : Parser := fun grammar text =>
  match files.readText (treePath grammar text) with
  | .ok listing => SyntaxTree.ofText? listing
  | .error _ => none

end CallersFirst
