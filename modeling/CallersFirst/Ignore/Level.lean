import CallersFirst.Ignore.File

/-! The ignore files of a directory and of those around it. -/

namespace CallersFirst

/-- Something found in a directory. -/
structure Finding where
  /-- Where it is. -/
  place : Location
  /-- The path by which it was found. -/
  path : String
  /-- Whether it is a directory. -/
  isDirectory : Bool

/-- A directory from which the paths of findings are taken. -/
structure Anchor where
  /-- Where the directory is. -/
  place : Location
  /-- The path by which it was looked into, unless it is only around those that were. -/
  path : Option String

/-- The path of a finding from a directory. From one that was looked into it is read off the text of
the finding's path. -/
def Anchor.relative (directory : Anchor) (finding : Finding) : PathBytes :=
  let path :=
    match directory.path with
    | none => "/".intercalate (finding.place.drop directory.place.length)
    | some path => Path.below (Path.withoutDot path) (Path.withoutDot finding.path)
  path.toUTF8.toList

/-- The rules that a directory adds for what is below it. -/
structure IgnoreLevel where
  /-- The directory. -/
  directory : Anchor
  /-- Whether the directory is the top of a repository. -/
  isRepository : Bool
  /-- The rules for every tool. -/
  general : IgnoreFile
  /-- The rules of the repository that are kept in it. -/
  tracked : IgnoreFile
  /-- The rules of the repository that are kept outside it. -/
  untracked : IgnoreFile
  /-- What keeps the directory of the repository from being found. -/
  lost : List IgnoreFault := []

namespace FileTree

/-- The path of a place. -/
def pathOf (tree : FileTree) (location : Location) : String :=
  location.foldl Path.join tree.home

/-- The first line of a file, if there is one. -/
def firstLine (tree : FileTree) (path : String) : Except IoError (Option Text) := do
  match byteLines (← tree.read path).toList with
  | [] => return none
  | line :: _ =>
    match lineText? line with
    | some text => return some text
    | none => throw .invalidUtf8

/-- The path of the directory shared by the work trees of a repository whose own directory is given. -/
def sharedDirectory? (tree : FileTree) (repository : String) : Except IgnoreFault (Option String) :=
  let pointer := Path.join repository "commondir"
  match tree.firstLine pointer with
  | .ok none => .ok none
  | .ok (some line) =>
    let shared := String.ofList line
    .ok (some (if line.head? = some '.' then Path.join repository shared else shared))
  | .error .invalidUtf8 => .error ⟨pointer, none, .io .invalidUtf8⟩
  | .error .isADirectory => .error ⟨pointer, none, .io .isADirectory⟩
  | .error _ => .ok none

/-- The path of the directory that holds a repository's data, if the top of the repository has a
file in its place. -/
def linkedRepository? (tree : FileTree) (path : String) (content : ByteArray) :
    Except IgnoreFault (Option String) :=
  match byteLines content.toList with
  | [] => .ok none
  | line :: _ =>
    match lineText? line with
    | none => .error ⟨path, none, .io .invalidUtf8⟩
    | some text =>
      let mark := "gitdir: ".toList
      if mark.isPrefixOf text then tree.sharedDirectory? (String.ofList (text.drop mark.length))
      else .ok none

/-- The path of something below a directory. -/
def pathBelow (tree : FileTree) (directory : Anchor) (names : List String) : String :=
  names.foldl Path.join (directory.path.getD (tree.pathOf directory.place))

/-- What is somewhere below a directory, unless the path to it is too long. -/
def entryBelow? (tree : FileTree) (directory : Anchor) (names : List String) : Option Entry :=
  if Path.isTooLong (tree.pathBelow directory names) then none
  else tree.get? (directory.place ++ names)

/-- The names of what makes a directory the top of a repository. -/
def repositoryNames : List String := [".git", ".jj"]

/-- The rules that a directory adds for what is below it. -/
def ignoreLevel (tree : FileTree) (directory : Anchor) : IgnoreLevel :=
  let file (names : List String) : IgnoreFile :=
    .ofEntry (tree.pathBelow directory names) (tree.entryBelow? directory names)
  let level : IgnoreLevel :=
    { directory
      isRepository := repositoryNames.any fun name => (tree.entryBelow? directory [name]).isSome
      general := file [".ignore"]
      tracked := file [".gitignore"]
      untracked := {} }
  match tree.entryBelow? directory [".git"] with
  | some (.file content) =>
    match tree.linkedRepository? (tree.pathBelow directory [".git"]) content with
    | .ok none => level
    | .ok (some data) =>
      let path := Path.join data "info/exclude"
      { level with untracked := .ofEntry path (tree.entry? path) }
    | .error fault => { level with lost := [fault] }
  | _ => { level with untracked := file [".git", "info", "exclude"] }

end FileTree

namespace IgnoreLevel

/-- What cannot be used of the rules of a level. -/
def faults (level : IgnoreLevel) : List IgnoreFault :=
  level.general.reported ++ level.tracked.reported ++ level.untracked.reported ++ level.lost

/-- What one of the ignore files of each level says about a finding, the first level that speaks of it
deciding. -/
def verdict? (levels : List IgnoreLevel) (file : IgnoreLevel → IgnoreFile) (finding : Finding) :
    Option Verdict :=
  levels.findSome? fun level =>
    IgnorePattern.verdict? (file level).patterns (level.directory.relative finding) finding.isDirectory

/-- The levels up to the top of the repository around the first one; none outside a repository. -/
def ofRepository : List IgnoreLevel → List IgnoreLevel
  | [] => []
  | level :: outer =>
    if level.isRepository then [level]
    else
      match ofRepository outer with
      | [] => []
      | others => level :: others

/-- Whether the rules of levels, innermost first, skip a finding. Rules for every tool come first, then
those kept in the repository, then those kept outside it. -/
def skips (levels : List IgnoreLevel) (finding : Finding) : Bool :=
  let verdict :=
    verdict? levels (·.general) finding <|>
      verdict? (ofRepository levels) (·.tracked) finding <|>
        verdict? (ofRepository levels) (·.untracked) finding
  verdict = some .ignored

end IgnoreLevel

end CallersFirst
