import CallersFirst.Ignore.Level
import CallersFirst.ParsedFile

/-! The source files found at and below given paths. -/

namespace CallersFirst

namespace ProjectSettings

/-- The patterns of what to skip. Each is read as a line that takes back, and skips what it speaks of. -/
def skipPatterns (settings : ProjectSettings) : Except Failure (List IgnorePattern) := do
  let patterns ← settings.ignorePatterns.mapM fun pattern =>
    match IgnorePattern.ofLine? false (IgnorePattern.trimmed ('!' :: pattern.toList)) with
    | .ok none => .ok none
    | .ok (some found) =>
      if found.glob.isTooDeep then .error (Failure.ignorePattern pattern) else .ok (some found)
    | .error _ => .error (Failure.ignorePattern pattern)
  return patterns.filterMap id

end ProjectSettings

namespace FileTree

/-- The greatest number of steps from the working directory to anything in the tree. -/
def depth (tree : FileTree) : Nat :=
  tree.entries.foldl (fun deepest (location, _) => max deepest location.length) 0

/-- The directories around a place, innermost first. -/
def around (location : Location) : List Location :=
  (List.range location.length).reverse.map location.take

/-- What is in a directory that was looked into by a path. -/
def findings (tree : FileTree) (directory : Location) (path : String) : List Finding :=
  (tree.children directory).map fun (name, entry) =>
    ⟨directory ++ [name], Path.join path name, entry = .directory⟩

/-- The paths of the files below a directory that no rule skips. The rules are those of the settings,
for paths from `root`, and those of the given levels and of the directories on the way. Files whose
path is too long are left out; a directory whose path is too long is a failure. -/
def walk (tree : FileTree) (patterns : List IgnorePattern) (root : Anchor) :
    Nat → List IgnoreLevel → Location → String → Except Failure (List String)
  | 0, _, _, _ => .ok []
  | depth + 1, outer, directory, path => do
    if Path.isTooLong path then throw (.unreadable path .nameTooLong)
    let levels := tree.ignoreLevel ⟨directory, some path⟩ :: outer
    let found ← (tree.findings directory path).mapM fun finding =>
      if patterns.any (·.concerns (root.relative finding) finding.isDirectory) then .ok []
      else if IgnoreLevel.skips levels finding then .ok []
      else if finding.isDirectory then tree.walk patterns root depth levels finding.place finding.path
      else .ok (if Path.isTooLong finding.path then [] else [finding.path])
    return found.flatten

/-- The paths of the files below a directory that no rule skips. A rule around the directory that
cannot be used is a failure; one below it is passed over. -/
def filesBelow (tree : FileTree) (patterns : List IgnorePattern) (directory : Location)
    (path : String) : Except Failure (List String) :=
  let outer := (around directory).map fun place => tree.ignoreLevel ⟨place, none⟩
  match outer.reverse.flatMap (·.faults) with
  | [] => tree.walk patterns ⟨directory, some path⟩ (tree.depth + 1) outer directory path
  | faults => .error (.ignoreFiles faults)

end FileTree

/-- The source files at or below a path. A file is kept as it is given; in a directory only files in
a supported language are. -/
def collectAt (files : FileTree) (settings : Settings) (root : String) : Except Failure (List String) :=
  match files.locate root with
  | .error _ => .error (.missingRoot root)
  | .ok location =>
    match files.get? location with
    | none => .error (.missingRoot root)
    | some (.file _) => .ok [root]
    | some .directory => do
      let patterns ← settings.project.skipPatterns
      -- A hyphen stands for standard input, which holds no files.
      if Path.components root = [.name "-"] then return []
      let paths ← files.filesBelow patterns location root
      return paths.filter fun path => (settings.parsing.languageOf? path).isSome

/-- The source files at or below some paths, in order and each once. -/
def collect (files : FileTree) (settings : Settings) (roots : List String) :
    Except Failure (List String) := do
  let found ← roots.mapM (collectAt files settings)
  return Path.sortDistinct found.flatten

end CallersFirst
