import CallersFirst.Ignore.Glob.Nesting
import CallersFirst.Ignore.Glob.Reader

/-! Ignore patterns: the lines of an ignore file and what they say about a path. -/

namespace CallersFirst

/-- A line of an ignore file. -/
structure IgnorePattern where
  /-- Whether it takes back what earlier lines ignore. -/
  negated : Bool
  /-- Whether it speaks of directories only. -/
  onlyDirectories : Bool
  /-- Which paths it speaks of. -/
  glob : Glob

/-- What patterns say about a path. -/
inductive Verdict where
  /-- It is skipped. -/
  | ignored
  /-- It is kept in spite of other patterns. -/
  | kept
deriving DecidableEq, Repr

namespace IgnorePattern

/-- A line without trailing blanks, the last one kept if a backslash protects it. -/
def trimmed (line : Text) : Text :=
  if "\\ ".toList.isSuffixOf line then line else line.trimEnd

/-- Takes a mark off the start of a line if it is there. -/
def takeMark (mark : Char) : Text → Bool × Text
  | [] => (false, [])
  | c :: rest => if c = mark then (true, rest) else (false, c :: rest)

/-- Takes the slash off the end of a line if it is there, and a backslash before it too. -/
def takeFinalSlash (line : Text) : Bool × Text :=
  match line.reverse with
  | '/' :: '\\' :: rest | '/' :: rest => (true, rest.reverse)
  | _ => (false, line)

/-- The text of a line's glob. A line without slashes speaks of names in every directory, and one that
ends with two stars of what is below a directory, not of the directory itself. -/
def globText (absolute : Bool) (line : Text) : Text :=
  let text :=
    if absolute ∨ '/' ∈ line ∨ line = "**".toList then line else "**/".toList ++ line
  if "/**".toList.isSuffixOf text then text ++ "/*".toList else text

/-- The pattern of a line without trailing blanks, if it is neither empty nor a comment. -/
def ofLine? (lenient : Bool) (line : Text) : Except GlobError (Option IgnorePattern) := do
  if line = [] ∨ line.head? = some '#' then return none
  let (negated, absolute, body) :=
    match line with
    | '\\' :: '!' :: rest => (false, false, '!' :: rest)
    | '\\' :: '#' :: rest => (false, false, '#' :: rest)
    | line =>
      let (negated, rest) := takeMark '!' line
      let (absolute, rest) := takeMark '/' rest
      (negated, absolute, rest)
  let (onlyDirectories, body) := takeFinalSlash body
  return some ⟨negated, onlyDirectories, ← Glob.parse lenient (globText absolute body)⟩

/-- Whether a pattern speaks of a path. -/
def concerns (pattern : IgnorePattern) (path : PathBytes) (isDirectory : Bool) : Bool :=
  (isDirectory || !pattern.onlyDirectories) && pattern.glob.accepts path

/-- What patterns say about a path: the last one that speaks of it decides. -/
def verdict? (patterns : List IgnorePattern) (path : PathBytes) (isDirectory : Bool) : Option Verdict :=
  (patterns.reverse.find? (·.concerns path isDirectory)).map fun pattern =>
    if pattern.negated then .kept else .ignored

end IgnorePattern

end CallersFirst
