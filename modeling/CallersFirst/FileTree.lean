import CallersFirst.Path

/-! The files below a working directory, and the operations on them by path. -/

namespace CallersFirst

/-- Why an operation on files fails. -/
inductive IoError where
  /-- There is nothing at the path. -/
  | notFound
  /-- There is something at the path already. -/
  | alreadyExists
  /-- A step of the path leads through a file. -/
  | notADirectory
  /-- The path leads to a directory. -/
  | isADirectory
  /-- The path or a name in it is too long. -/
  | nameTooLong
  /-- The path has a character that no name can have. -/
  | invalidName
  /-- The file is not text. -/
  | invalidUtf8
deriving DecidableEq, Repr

/-- The wording of a failure. -/
def IoError.message : IoError → String
  | .notFound => "No such file or directory (os error 2)"
  | .alreadyExists => "File exists (os error 17)"
  | .notADirectory => "Not a directory (os error 20)"
  | .isADirectory => "Is a directory (os error 21)"
  | .nameTooLong => "File name too long (os error 36)"
  | .invalidName => "file name contained an unexpected NUL byte"
  | .invalidUtf8 => "stream did not contain valid UTF-8"

/-- A place below the working directory: the names on the way to it. -/
abbrev Location := List String

/-- What is at a place. -/
inductive Entry where
  /-- A file with its bytes. -/
  | file (content : ByteArray)
  /-- A directory. -/
  | directory

/-- Whether two entries are the same: both directories, or files with the same bytes. -/
def Entry.decideEq : (first second : Entry) → Decidable (first = second)
  | .directory, .directory => .isTrue rfl
  | .directory, .file _ => .isFalse nofun
  | .file _, .directory => .isFalse nofun
  | .file ⟨first⟩, .file ⟨second⟩ =>
    if same : first = second then .isTrue (by rw [same])
    else .isFalse fun equal => same (by cases equal; rfl)

instance : DecidableEq Entry :=
  Entry.decideEq

/-- The files and directories below a working directory. -/
structure FileTree where
  /-- The absolute path of the working directory. -/
  home : String := "/"
  /-- What is where; the working directory itself is not listed. -/
  entries : List (Location × Entry) := []

namespace FileTree

/-- What is at a place. The working directory itself is always there. -/
def get? (tree : FileTree) (location : Location) : Option Entry :=
  if location = [] then some .directory else tree.entries.lookup location

/-- The tree with something put at a place, in place of what was there. -/
def put (tree : FileTree) (location : Location) (entry : Entry) : FileTree :=
  { tree with entries := (location, entry) :: tree.entries.filter (·.1 ≠ location) }

/-- Entries with other bytes in the first one listed at a place. -/
def overwriteIn (location : Location) (content : ByteArray) : List (Location × Entry) → List (Location × Entry)
  | [] => []
  | (place, entry) :: rest =>
    if place = location then (place, .file content) :: rest
    else (place, entry) :: overwriteIn location content rest

/-- The tree with other bytes in the file at a place. -/
def overwrite (tree : FileTree) (location : Location) (content : ByteArray) : FileTree :=
  { tree with entries := overwriteIn location content tree.entries }

/-- What has been put at a place is there. -/
theorem get?_put_self (tree : FileTree) {location : Location} (entry : Entry) (inside : location ≠ []) :
    (tree.put location entry).get? location = some entry := by
  simp [get?, put, inside]

/-- Putting something at a place changes nothing at the others. -/
theorem get?_put_of_ne (tree : FileTree) {location other : Location} (entry : Entry)
    (apart : other ≠ location) : (tree.put location entry).get? other = tree.get? other := by
  -- The entries of other places are looked up behind the new one, from which none of them is missing.
  have differ : (other == location) = false := by simpa using apart
  simp only [get?, put]
  split
  · rfl
  · rw [List.lookup_cons, differ]
    induction tree.entries with
    | nil => rfl
    | cons pair rest ih =>
      obtain ⟨place, found⟩ := pair
      simp only [List.filter_cons]
      split
      · simp only [List.lookup_cons]
        split
        · rfl
        · exact ih
      · next dropped =>
        have same : place = location := by simpa using dropped
        rw [List.lookup_cons, same, differ]
        exact ih

/-- The tree with a directory at a place and at all those around it where there is nothing yet. -/
def withDirectories (tree : FileTree) (location : Location) : FileTree :=
  (List.range location.length).foldl
    (fun tree taken =>
      let directory := location.take (taken + 1)
      if (tree.get? directory).isSome then tree else tree.put directory .directory)
    tree

/-- The tree with a file at a place and directories around it. -/
def withFile (tree : FileTree) (location : Location) (content : ByteArray) : FileTree :=
  (tree.withDirectories location.dropLast).put location (.file content)

/-- The names in a directory with what they stand for. -/
def children (tree : FileTree) (location : Location) : List (String × Entry) :=
  tree.entries.filterMap fun (place, entry) =>
    match place.getLast? with
    | some name => if place.dropLast = location then some (name, entry) else none
    | none => none

/-- One step of a path from a place that has been reached. -/
def step (tree : FileTree) (location : Location) (segment : String) : Except IoError Location :=
  match tree.get? location with
  | some .directory =>
    if segment = "" ∨ segment = "." then .ok location
    else if segment = ".." then
      -- Nothing is known about what lies above the working directory.
      if location = [] then .error .notFound else .ok location.dropLast
    else if Path.nameLimit < segment.utf8ByteSize then .error .nameTooLong
    else if (tree.get? (location ++ [segment])).isSome then .ok (location ++ [segment])
    else .error .notFound
  | some (.file _) => .error .notADirectory
  | none => .error .notFound

/-- The steps of a path from the working directory, which an absolute path has to lead through. -/
def steps (tree : FileTree) (path : String) : Except IoError (List String) :=
  if '\x00' ∈ path.toList then .error .invalidName
  else if path = "" then .error .notFound
  else if Path.isTooLong path then .error .nameTooLong
  else if Path.isAbsolute path then
    -- A slash at the end of the working directory makes no step.
    let home := Path.withoutFinal "" (Path.segments tree.home)
    let segments := Path.segments path
    if home.isPrefixOf segments then .ok (segments.drop home.length) else .error .notFound
  else .ok (Path.segments path)

/-- The place that a path leads to from the working directory. -/
def locate (tree : FileTree) (path : String) : Except IoError Location := do
  (← tree.steps path).foldlM tree.step []

/-- What a path leads to. -/
def entry? (tree : FileTree) (path : String) : Option Entry :=
  match tree.locate path with
  | .ok location => tree.get? location
  | .error _ => none

/-- Whether a path leads anywhere. -/
def exists? (tree : FileTree) (path : String) : Bool :=
  (tree.entry? path).isSome

/-- The bytes of a file. -/
def read (tree : FileTree) (path : String) : Except IoError ByteArray := do
  let location ← tree.locate path
  match tree.get? location with
  | some (.file content) => .ok content
  | some .directory => .error .isADirectory
  | none => .error .notFound

/-- The text of a file. -/
def readText (tree : FileTree) (path : String) : Except IoError Text := do
  match String.fromUTF8? (← tree.read path) with
  | some text => .ok text.toList
  | none => .error .invalidUtf8

/-- The directory in which the last step of a path is taken, and that step. -/
def parentOf (tree : FileTree) (steps : List String) : Except IoError (Location × String) :=
  match steps.getLast? with
  | none => .error .notFound
  | some last => do
    let location ← steps.dropLast.foldlM tree.step []
    return (location, last)

/-- The tree with a text written to a file, which is made if its directory is there. -/
def writeText (tree : FileTree) (path : String) (text : Text) : Except IoError FileTree :=
  let content := (String.ofList text).toUTF8
  match tree.locate path with
  | .ok location =>
    match tree.get? location with
    | some (.file _) => .ok (tree.overwrite location content)
    | _ => .error .isADirectory
  | .error .notFound => do
    let (directory, name) ← tree.parentOf (← tree.steps path)
    match tree.get? directory with
    | some .directory =>
      if name = "" ∨ name = ".." then .error .isADirectory
      else .ok (tree.put (directory ++ [name]) (.file content))
    | _ => .error .notADirectory
  | .error other => .error other

/-- The files whose bytes a later state of the tree has newly or differently. -/
def changedFiles (before after : FileTree) : List (Location × ByteArray) :=
  after.entries.filterMap fun (location, entry) =>
    match entry with
    | .file content => if before.get? location = some entry then none else some (location, content)
    | .directory => none

end FileTree

end CallersFirst
