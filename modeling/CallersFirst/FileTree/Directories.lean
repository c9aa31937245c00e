import CallersFirst.FileTree

/-! Making a directory together with the directories on the way to it. -/

namespace CallersFirst

namespace FileTree

/-- The tree with one more directory, the one before the last step being there. -/
def makeDirectory (tree : FileTree) (steps : List String) : Except IoError FileTree := do
  let (location, name) ← tree.parentOf steps
  match tree.get? location with
  | some .directory =>
    if name = "." ∨ name = ".." ∨ (tree.get? (location ++ [name])).isSome then .error .alreadyExists
    else if Path.nameLimit < name.utf8ByteSize then .error .nameTooLong
    else .ok (tree.put (location ++ [name]) .directory)
  | _ => .error .notADirectory

/-- Whether steps lead to a directory. -/
def leadsToDirectory (tree : FileTree) (steps : List String) : Bool :=
  match steps.foldlM tree.step [] with
  | .ok location => tree.get? location = some .directory
  | .error _ => false

/-- The tree with one more directory, unless it is there already. -/
def ensureDirectory (tree : FileTree) (steps : List String) : Except IoError FileTree :=
  match tree.makeDirectory steps with
  | .error .alreadyExists => if tree.leadsToDirectory steps then .ok tree else .error .alreadyExists
  | result => result

/-- Makes the innermost of some nested directories that can be made or is there already. The result has
the directories inside it, which are still missing, outermost first. -/
def startDirectories (tree : FileTree) : List (List String) → Except IoError (FileTree × List (List String))
  | [] => .ok (tree, [])
  | steps :: outer =>
    match tree.ensureDirectory steps with
    | .ok made => .ok (made, [])
    | .error .notFound => do
      let (made, missing) ← tree.startDirectories outer
      return (made, missing ++ [steps])
    | .error failure => .error failure

/-- Makes some nested directories, outermost first. Those made before a failure stay. -/
def finishDirectories (tree : FileTree) : List (List String) → FileTree × Option IoError
  | [] => (tree, none)
  | steps :: inner =>
    match tree.ensureDirectory steps with
    | .ok made => made.finishDirectories inner
    | .error failure => (tree, some failure)

/-- Makes a directory and all those on the way to it, as far as they are missing. The result is the
tree with those that could be made, and the failure that ended it if there was one. -/
def createDirectories (tree : FileTree) (path : String) : FileTree × Option IoError :=
  if path = "" then (tree, none)
  else
    match tree.steps path with
    | .error failure => (tree, some failure)
    | .ok segments =>
      let steps := segments.filter (· ≠ "")
      -- An absolute path may lead to the working directory itself.
      if steps = [] then (tree, none)
      else
        match tree.startDirectories (Path.chain steps) with
        | .error failure => (tree, some failure)
        | .ok (made, missing) => made.finishDirectories missing

end FileTree

end CallersFirst
