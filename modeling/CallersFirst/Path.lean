import CallersFirst.Text

/-! Paths as they are written: their components, their order, how they are followed and what follows a
directory in them. -/

namespace CallersFirst

namespace Path

/-- One step of a path. -/
inductive Component where
  /-- The root of the file system, at the start of an absolute path. -/
  | root
  /-- The current directory, at the start of a path. -/
  | current
  /-- The parent directory. -/
  | parent
  /-- An entry of a directory. -/
  | name (text : String)
deriving DecidableEq, Repr

/-- The pieces of a path between its slashes, empty ones included. -/
def segments (path : String) : List String :=
  (Text.splitAt '/' path.toList).map String.ofList

/-- Whether a path starts at the root of the file system. -/
def isAbsolute (path : String) : Bool :=
  path.toList.head? = some '/'

/-- The step that a piece stands for behind the start of a path, if any. -/
def component? : String → Option Component
  | "" | "." => none
  | ".." => some .parent
  | text => some (.name text)

/-- The steps of a path. Repeated slashes and dots behind the start make no difference. -/
def components (path : String) : List Component :=
  let steps := (segments path).filterMap component?
  if isAbsolute path then .root :: steps
  else if (segments path).head? = some "." then .current :: steps
  else steps

/-- The place of a step among steps of other kinds. -/
def Component.rank : Component → Nat
  | .root => 0
  | .current => 1
  | .parent => 2
  | .name _ => 3

/-- Whether a step comes before a different one: by kind, and names by their characters. -/
def Component.precedes : Component → Component → Bool
  | .name first, .name second => first < second
  | first, second => first.rank < second.rank

/-- Whether a list of steps comes no later than another, step by step. -/
def noLater : List Component → List Component → Bool
  | [], _ => true
  | _ :: _, [] => false
  | first :: firsts, second :: seconds =>
    if first = second then noLater firsts seconds else first.precedes second

/-- Paths in order, those with the same steps listed once, in the writing that came first. -/
def sortDistinct (paths : List String) : List String :=
  (paths.mergeSort fun first second => noLater (components first) (components second)).foldr
    (fun path later =>
      match later with
      | next :: rest => if components path = components next then path :: rest else path :: later
      | [] => [path])
    []

/-- Putting paths in order and listing them once invents none. -/
theorem mem_of_mem_sortDistinct {paths : List String} {path : String}
    (listed : path ∈ sortDistinct paths) : path ∈ paths := by
  -- Sorting keeps the members, and the fold only leaves some out.
  have members : path ∈ paths.mergeSort
      (fun first second => noLater (components first) (components second)) ↔ path ∈ paths :=
    List.mem_mergeSort
  rw [← members]
  clear members
  revert listed
  rw [sortDistinct]
  generalize paths.mergeSort (fun first second => noLater (components first) (components second)) = sorted
  induction sorted with
  | nil => simp
  | cons first rest ih =>
    simp only [List.foldr_cons]
    split
    next following later kept =>
      rw [kept] at ih
      split
      · intro listed
        rcases List.mem_cons.1 listed with rfl | tail
        · exact List.mem_cons_self
        · exact List.mem_cons_of_mem _ (ih (List.mem_cons_of_mem _ tail))
      · intro listed
        rcases List.mem_cons.1 listed with rfl | tail
        · exact List.mem_cons_self
        · exact List.mem_cons_of_mem _ (ih (by simpa [kept] using tail))
    next =>
      intro listed
      rw [List.mem_singleton.1 listed]
      exact List.mem_cons_self

/-- The greatest number of bytes in a path that can be followed. -/
def pathLimit : Nat := 4095

/-- Whether a path has too many bytes to be followed. -/
def isTooLong (path : String) : Bool :=
  pathLimit < path.utf8ByteSize

/-- The greatest number of bytes in a name of a directory entry. -/
def nameLimit : Nat := 255

/-- Steps without those at their end that are a given piece. -/
def withoutFinal (piece : String) (steps : List String) : List String :=
  (steps.reverse.dropWhile (· = piece)).reverse

/-- Steps and those to the directories on their way, innermost first. None of the latter ends with a
dot. -/
def chain (steps : List String) : List (List String) :=
  let way := withoutFinal "." steps
  let outer := (List.range way.length).reverse.map way.take
  steps :: outer.filter fun directory => directory.getLast?.any (· ≠ ".")

/-- A text without a text at its start, if it starts with it. -/
def after? (start text : String) : Option String :=
  if start.toList.isPrefixOf text.toList then some (String.ofList (text.toList.drop start.length))
  else none

/-- A path without one dot and slash at its start, if it has them. -/
def withoutDot (path : String) : String :=
  (after? "./" path).getD path

/-- What follows a directory in the text of a path. A path that is not written with the directory at
its start stays whole, and so does every path if the directory is the current one. -/
def below (directory path : String) : String :=
  let path := withoutDot path
  if components directory = [.current] ∨ '/' ∉ path.toList then path
  else
    match after? directory path with
    | some rest => (after? "/" rest).getD rest
    | none => path

/-- The last name of a path, unless the path ends with another kind of step. -/
def fileName? (path : String) : Option String :=
  match (components path).getLast? with
  | some (.name text) => some text
  | _ => none

/-- What follows the last dot of a path's last name, unless the name starts with that dot. -/
def extension? (path : String) : Option String := do
  let name ← fileName? path
  let reversed := name.toList.reverse
  let ending := reversed.takeWhile (· ≠ '.')
  -- The stem is what is left once the ending and its dot are gone.
  let stem := reversed.drop (ending.length + 1)
  guard (stem ≠ [])
  return String.ofList ending.reverse

/-- The path of an entry of a directory. -/
def join (directory name : String) : String :=
  match directory.toList.getLast? with
  | none => name
  | some '/' => directory ++ name
  | some _ => directory ++ "/" ++ name

end Path

end CallersFirst
