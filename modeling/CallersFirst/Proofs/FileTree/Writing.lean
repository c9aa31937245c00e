import CallersFirst.Proofs.FileTree

/-! A text that could be written to a path is what is read there afterwards, also if the file is new. -/

namespace CallersFirst

namespace FileTree

section Writing

variable {tree written : FileTree} {path : String} {place start location : Location} {text : Text}

/-- Something put at an empty place is in the way of no step. -/
theorem step_put {segment : String} (entry : Entry) (empty : tree.get? place = none)
    (made : tree.step start segment = .ok location) : (tree.put place entry).step start segment = .ok location := by
  -- What is there already is elsewhere, and so it is not replaced.
  have kept {other : Location} {found : Entry} (there : tree.get? other = some found) :
      (tree.put place entry).get? other = some found := by
    rw [get?_put_of_ne tree entry, there]
    rintro rfl
    rw [empty] at there
    cases there
  unfold step at made
  split at made
  · rename_i directory
    rw [step, kept directory]
    simp only
    -- Each branch that makes the step makes it again, and the others make none.
    split at made
    · rw [if_pos ‹_›, made]
    · rw [if_neg ‹_›]
      split at made
      · rw [if_pos ‹_›, made]
      · rw [if_neg ‹_›]
        split at made
        · cases made
        · rw [if_neg ‹_›]
          split at made
          · rename_i there
            obtain ⟨found, isThere⟩ := Option.isSome_iff_exists.1 there
            rw [kept isThere, ← made]
            rfl
          · cases made
  · cases made
  · cases made

/-- Something put at an empty place is in the way of no steps. -/
theorem foldlM_step_put {segments : List String} (entry : Entry) (empty : tree.get? place = none)
    (made : segments.foldlM tree.step start = .ok location) :
    segments.foldlM (tree.put place entry).step start = .ok location := by
  induction segments generalizing start with
  | nil => exact made
  | cons segment rest ih =>
    -- The first step is made as before, and then the others are.
    rw [List.foldlM_cons, bind_eq_ok_iff] at made ⊢
    obtain ⟨next, first, further⟩ := made
    exact ⟨next, step_put entry empty first, ih further⟩

/-- A step from a directory that finds nothing has a name that a new entry can have. -/
theorem step_eq_notFound {segment : String} (directory : tree.get? start = some .directory) (forth : segment ≠ "..")
    (missing : tree.step start segment = .error .notFound) :
    ¬ (segment = "" ∨ segment = ".") ∧ ¬ Path.nameLimit < segment.utf8ByteSize ∧
      tree.get? (start ++ [segment]) = none := by
  simp only [step, directory, if_neg forth] at missing
  -- From a directory, a step forth finds nothing only if its name is well-formed and not taken.
  split at missing
  · cases missing
  · rename_i named
    split at missing
    · cases missing
    · rename_i short
      split at missing
      · cases missing
      · rename_i empty
        exact ⟨named, short, by simpa using empty⟩

/-- A new entry is found under its name. -/
theorem step_put_self {segment : String} (entry : Entry) (directory : tree.get? start = some .directory)
    (forth : segment ≠ "..") (missing : tree.step start segment = .error .notFound) :
    (tree.put (start ++ [segment]) entry).step start segment = .ok (start ++ [segment]) := by
  obtain ⟨named, short, _⟩ := step_eq_notFound directory forth missing
  -- The directory is another place than the new entry, so it is still one.
  have kept : (tree.put (start ++ [segment]) entry).get? start = some .directory := by
    rw [get?_put_of_ne tree entry (by simp), directory]
  have there : (tree.put (start ++ [segment]) entry).get? (start ++ [segment]) = some entry :=
    get?_put_self tree entry (by simp)
  simp only [step, kept, if_neg named, if_neg forth, if_neg short, there, Option.isSome_some, if_true]

/-- The last of some steps, and where those before it lead. -/
theorem parentOf_eq_ok_iff {segments : List String} {name : String} :
    tree.parentOf segments = .ok (start, name) ↔
      ∃ front, segments = front ++ [name] ∧ front.foldlM tree.step [] = .ok start := by
  unfold parentOf
  constructor
  · intro parent
    -- The steps before the last are made, and the last is only named.
    split at parent
    · cases parent
    · rename_i last isLast
      obtain ⟨location, made, same⟩ := bind_eq_ok_iff.1 parent
      cases same
      obtain ⟨front, rfl⟩ := List.getLast?_eq_some_iff.1 isLast
      rw [List.dropLast_concat] at made
      exact ⟨front, rfl, made⟩
  · rintro ⟨front, rfl, made⟩
    rw [List.getLast?_concat, List.dropLast_concat, made]
    rfl

/--
A text is written to a file that is there, or makes a new one in a directory.

Which of the two it is, and whether either can be done, does not depend on the text.
-/
theorem writeText_eq_ok_iff :
    tree.writeText path text = .ok written ↔
      (∃ location content, tree.locate path = .ok location ∧ tree.get? location = some (.file content) ∧
        written = tree.overwrite location (String.ofList text).toUTF8) ∨
      ∃ front name start, tree.locate path = .error .notFound ∧ tree.steps path = .ok (front ++ [name]) ∧
        front.foldlM tree.step [] = .ok start ∧ tree.get? start = some .directory ∧ name ≠ "" ∧ name ≠ ".." ∧
        written = tree.put (start ++ [name]) (.file (String.ofList text).toUTF8) := by
  constructor
  · intro wrote
    unfold writeText at wrote
    simp only at wrote
    -- A path that leads to a file has it overwritten; one that leads nowhere gets a new file in its directory.
    split at wrote
    · rename_i location located
      split at wrote
      · rename_i content isFile
        cases wrote
        exact .inl ⟨location, content, located, isFile, rfl⟩
      · cases wrote
    · rename_i missing
      obtain ⟨segments, asked, further⟩ := bind_eq_ok_iff.1 wrote
      obtain ⟨⟨start, name⟩, parent, put⟩ := bind_eq_ok_iff.1 further
      obtain ⟨front, rfl, made⟩ := parentOf_eq_ok_iff.1 parent
      simp only at put
      split at put
      · rename_i directory
        split at put
        · cases put
        · rename_i proper
          cases put
          exact .inr ⟨front, name, start, missing, asked, made, directory, fun none => proper (.inl none),
            fun back => proper (.inr back), rfl⟩
      · cases put
    · cases wrote
  · rintro (⟨location, content, located, isFile, rfl⟩ |
      ⟨front, name, start, missing, asked, made, directory, some_name, forth, rfl⟩)
    · exact writeText_of_file text located isFile
    · have parent : tree.parentOf (front ++ [name]) = .ok (start, name) := parentOf_eq_ok_iff.2 ⟨front, rfl, made⟩
      simp only [writeText, missing]
      rw [bind_eq_ok_iff]
      refine ⟨_, asked, bind_eq_ok_iff.2 ⟨_, parent, ?_⟩⟩
      simp only [directory, some_name, forth, or_self, if_false]

/-- A path that found nothing in a directory leads to what is put there. -/
theorem locate_put_self {front : List String} {name : String} (entry : Entry)
    (asked : tree.steps path = .ok (front ++ [name])) (made : front.foldlM tree.step [] = .ok start)
    (directory : tree.get? start = some .directory) (forth : name ≠ "..")
    (missing : tree.locate path = .error .notFound) :
    (tree.put (start ++ [name]) entry).locate path = .ok (start ++ [name]) := by
  have lastStep : tree.step start name = .error .notFound := by
    rw [locate, asked] at missing
    change (front ++ [name]).foldlM tree.step [] = _ at missing
    rw [List.foldlM_append, made] at missing
    change [name].foldlM tree.step start = _ at missing
    simpa using missing
  -- The way to the directory is as it was, and the last step is one that can be made now.
  have empty := (step_eq_notFound directory forth lastStep).2.2
  rw [locate, show (tree.put (start ++ [name]) entry).steps path = tree.steps path from rfl, asked]
  change (front ++ [name]).foldlM (tree.put (start ++ [name]) entry).step [] = _
  rw [List.foldlM_append, foldlM_step_put entry empty made]
  change [name].foldlM (tree.put (start ++ [name]) entry).step start = _
  simpa using step_put_self entry directory forth lastStep

/-- What has been written to a path is read from it. -/
theorem readText_of_writeText (wrote : tree.writeText path text = .ok written) : written.readText path = .ok text := by
  rw [readText_eq_ok_iff]
  rcases writeText_eq_ok_iff.1 wrote with
    ⟨location, content, located, isFile, rfl⟩ | ⟨front, name, start, missing, asked, made, directory, _, forth, rfl⟩
  · exact ⟨location, by rw [(sameLayout_overwrite isFile).locate, located], get?_overwrite_self isFile⟩
  · exact ⟨start ++ [name], locate_put_self _ asked made directory forth missing, get?_put_self tree _ (by simp)⟩

/-- A path to which texts can be written. -/
def IsWritable (tree : FileTree) (path : String) : Prop :=
  ∃ text written, tree.writeText path text = .ok written

/-- Where one text can be written, every other one can. -/
theorem IsWritable.exists_writeText (writable : tree.IsWritable path) (text : Text) :
    ∃ written, tree.writeText path text = .ok written := by
  obtain ⟨_, _, wrote⟩ := writable
  -- What writing asks for says nothing of the text, so the same case is there for another.
  rcases writeText_eq_ok_iff.1 wrote with
    ⟨location, content, located, isFile, _⟩ | ⟨front, name, start, missing, asked, made, directory, proper, forth, _⟩
  · exact ⟨_, writeText_eq_ok_iff.2 (.inl ⟨location, content, located, isFile, rfl⟩)⟩
  · exact ⟨_, writeText_eq_ok_iff.2
      (.inr ⟨front, name, start, missing, asked, made, directory, proper, forth, rfl⟩)⟩

end Writing

end FileTree

end CallersFirst
