import CallersFirst.FileTree
import CallersFirst.Proofs.Except
import CallersFirst.Proofs.Path

/-! Writing to a file changes its content and nothing about where paths lead. -/

namespace CallersFirst

namespace FileTree

/-- Whether there is a directory at a place, if there is anything. -/
def directoryAt? (tree : FileTree) (location : Location) : Option Bool :=
  (tree.get? location).map fun entry => decide (entry = .directory)

/-- What is listed where, leaving aside the content of files. -/
def layout (tree : FileTree) : List (Location × Bool) :=
  tree.entries.map fun (location, entry) => (location, decide (entry = .directory))

/-- Two states of a tree that differ in the content of files at most. -/
structure SameLayout (before after : FileTree) : Prop where
  /-- The working directory is the same. -/
  home : after.home = before.home
  /-- The same places are listed, in the same order and with the same kinds of entries. -/
  layout : after.layout = before.layout

/-- The kinds of entries are looked up in the layout. -/
theorem lookup_layout (tree : FileTree) (location : Location) :
    tree.layout.lookup location =
      (tree.entries.lookup location).map fun entry => decide (entry = .directory) := by
  unfold layout
  induction tree.entries with
  | nil => rfl
  | cons pair rest ih =>
    -- The place that is looked up is found in both lists at once, or in the rest of both.
    obtain ⟨place, entry⟩ := pair
    simp only [List.map_cons, List.lookup_cons]
    split
    · rfl
    · exact ih

/-- A step goes by the kinds of entries alone. -/
theorem step_eq (tree : FileTree) (location : Location) (segment : String) :
    tree.step location segment =
      match tree.directoryAt? location with
      | some true =>
        if segment = "" ∨ segment = "." then .ok location
        else if segment = ".." then
          if location = [] then .error .notFound else .ok location.dropLast
        else if Path.nameLimit < segment.utf8ByteSize then .error .nameTooLong
        else if (tree.directoryAt? (location ++ [segment])).isSome then .ok (location ++ [segment])
        else .error .notFound
      | some false => .error .notADirectory
      | none => .error .notFound := by
  unfold step directoryAt?
  -- Which entry it is matters only for whether it is a directory.
  cases tree.get? location with
  | none => rfl
  | some entry =>
    cases entry with
    | file content => rfl
    | directory => simp only [Option.map_some, decide_true, Option.isSome_map]

namespace SameLayout

variable {before after : FileTree}

/-- Every tree has the layout that it has. -/
theorem refl (tree : FileTree) : SameLayout tree tree :=
  ⟨rfl, rfl⟩

/-- A layout that stays the same twice stays the same. -/
theorem trans {first second third : FileTree} (one : SameLayout first second)
    (two : SameLayout second third) : SameLayout first third :=
  ⟨two.home.trans one.home, two.layout.trans one.layout⟩

/-- The same places are directories. -/
theorem directoryAt? (same : SameLayout before after) (location : Location) :
    after.directoryAt? location = before.directoryAt? location := by
  unfold FileTree.directoryAt? get?
  by_cases home : location = []
  · simp only [home, if_true]
  · simp only [home, if_false, ← lookup_layout, same.layout]

/-- At every place there is nothing, or a directory, or a file, before and after. -/
theorem get?_cases (same : SameLayout before after) (location : Location) :
    before.get? location = none ∧ after.get? location = none ∨
      before.get? location = some .directory ∧ after.get? location = some .directory ∨
      ∃ content written, before.get? location = some (.file content) ∧
        after.get? location = some (.file written) := by
  have kind := same.directoryAt? location
  unfold FileTree.directoryAt? at kind
  -- The kind before is that of the entry afterwards, so the cases match.
  cases old : before.get? location with
  | none =>
    rw [old, Option.map_none, Option.map_eq_none_iff] at kind
    exact .inl ⟨rfl, kind⟩
  | some entry =>
    rw [old, Option.map_some, Option.map_eq_some_iff] at kind
    obtain ⟨found, new, agrees⟩ := kind
    cases entry with
    | directory =>
      have isDirectory : found = .directory := by simpa using agrees
      exact .inr (.inl ⟨rfl, by rw [new, isDirectory]⟩)
    | file content =>
      cases found with
      | directory => simp at agrees
      | file written => exact .inr (.inr ⟨content, written, rfl, new⟩)

/-- Every path leads to the same place. -/
theorem locate (same : SameLayout before after) (path : String) :
    after.locate path = before.locate path := by
  -- The layout settles both the steps of the path and where each of them leads.
  have steps : after.steps path = before.steps path := by
    simp only [FileTree.steps, same.home]
  have step : after.step = before.step := by
    funext location segment
    rw [step_eq, step_eq, same.directoryAt?, same.directoryAt?]
  rw [FileTree.locate, FileTree.locate, steps, step]

/-- A path is read the same if what it leads to is the same. -/
theorem read (same : SameLayout before after) {path : String}
    (kept : ∀ location, before.locate path = .ok location → after.get? location = before.get? location) :
    after.read path = before.read path := by
  rw [FileTree.read, FileTree.read, same.locate]
  cases located : before.locate path with
  | error cause => rfl
  | ok location => simp only [bind, Except.bind, kept location located]

end SameLayout

/-! ### Where paths to files end -/

section Locating

variable {tree : FileTree} {path : String} {location start : Location} {content : ByteArray}

/-- A place to which the way leads through directories. -/
def IsReachable (tree : FileTree) (location : Location) : Prop :=
  ∀ outer name inner, location = outer ++ name :: inner → tree.get? outer = some .directory

/-- The working directory is reachable. -/
theorem isReachable_nil (tree : FileTree) : tree.IsReachable [] := by
  intro outer name inner joined
  cases outer with
  | nil => cases joined
  | cons first rest => cases joined

/-- The directory around a place that can be reached. -/
theorem IsReachable.get?_dropLast (reachable : tree.IsReachable location) (inside : location ≠ []) :
    tree.get? location.dropLast = some .directory :=
  reachable _ _ [] (List.dropLast_concat_getLast inside).symm

/--
One step of a path, if it can be made.

It starts from a directory, and stays there, or goes back, or enters what the step names.
-/
theorem step_eq_ok {segment : String} (made : tree.step start segment = .ok location) :
    tree.get? start = some .directory ∧
      ((segment = "" ∨ segment = ".") ∧ location = start ∨
        segment = ".." ∧ start ≠ [] ∧ location = start.dropLast ∨
        segment ≠ "" ∧ segment ≠ "." ∧ segment ≠ ".." ∧ location = start ++ [segment]) := by
  -- The branches are those of the step: it stays, goes back, goes on, or cannot be made.
  unfold step at made
  split at made
  · rename_i directory
    refine ⟨directory, ?_⟩
    split at made
    -- An empty segment and a dot stay.
    · rename_i stays
      cases made
      exact .inl ⟨stays, rfl⟩
    · rename_i moves
      split at made
      · rename_i back
        split at made
        · cases made
        · rename_i inside
          cases made
          -- Two dots go back, which has to be possible.
          exact .inr (.inl ⟨back, inside, rfl⟩)
      · rename_i forth
        split at made
        · cases made
        · split at made
          · cases made
            -- A name that is there is entered.
            exact .inr (.inr ⟨fun empty => moves (.inl empty), fun dot => moves (.inr dot), forth, rfl⟩)
          · cases made
  · cases made
  · cases made

/-- A step leads from a place that can be reached to one that can. -/
theorem IsReachable.step {segment : String} (reachable : tree.IsReachable start)
    (made : tree.step start segment = .ok location) : tree.IsReachable location := by
  obtain ⟨directory, ⟨_, rfl⟩ | ⟨_, inside, rfl⟩ | ⟨_, _, _, rfl⟩⟩ := step_eq_ok made
  · exact reachable
  · -- What lies around a directory on the way back lies around the place it starts from.
    intro outer name inner joined
    refine reachable outer name (inner ++ [start.getLast inside]) ?_
    rw [← List.cons_append, ← List.append_assoc, ← joined]
    exact (List.dropLast_concat_getLast inside).symm
  · intro outer name inner joined
    -- The new place is the last one on its way, or the directory lies around the old one.
    rcases List.append_eq_append_iff.1 joined with ⟨between, rfl, tail⟩ | ⟨between, rfl, tail⟩
    · cases between with
      | nil =>
        rw [List.append_nil]
        exact directory
      | cons first rest =>
        simp at tail
    · cases between with
      | nil =>
        rw [List.append_nil] at directory
        exact directory
      | cons first rest =>
        cases tail
        exact reachable outer name rest rfl

/-- Steps lead from a place that can be reached to one that can. -/
theorem IsReachable.steps {segments : List String} :
    ∀ {start : Location}, tree.IsReachable start → segments.foldlM tree.step start = .ok location →
      tree.IsReachable location := by
  induction segments with
  | nil =>
    intro start reachable made
    cases made
    exact reachable
  | cons segment rest ih =>
    -- The first step leads to such a place, and from there the rest do.
    intro start reachable made
    rw [List.foldlM_cons, bind_eq_ok_iff] at made
    obtain ⟨next, first, further⟩ := made
    exact ih (reachable.step first) further

/-- Steps to a file end with its name. -/
theorem getLast?_of_steps {segments : List String} (made : segments.foldlM tree.step [] = .ok location)
    (found : tree.get? location = some (.file content)) :
    ∃ name, segments.getLast? = some name ∧ location.getLast? = some name ∧
      Path.component? name = some (.name name) := by
  rcases List.eq_nil_or_concat segments with rfl | ⟨front, last, rfl⟩
  · -- Without steps, one stays in the working directory.
    cases made
    simp [get?] at found
  · rw [List.concat_eq_append] at made ⊢
    rw [List.foldlM_append, bind_eq_ok_iff] at made
    obtain ⟨middle, way, made⟩ := made
    rw [List.foldlM_cons, bind_eq_ok_iff] at made
    obtain ⟨place, step, same⟩ := made
    cases same
    -- The last step is made from a directory, and enters the file from there.
    obtain ⟨directory, ⟨_, rfl⟩ | ⟨_, inside, rfl⟩ | ⟨some_name, no_dot, no_dots, rfl⟩⟩ := step_eq_ok step
    · rw [directory] at found
      cases found
    · rw [((isReachable_nil tree).steps way).get?_dropLast inside] at found
      cases found
    · exact ⟨last, by simp, by simp, Path.component?_eq_name some_name no_dot no_dots⟩

/-- The steps of a path are its pieces, perhaps without those to the working directory. -/
theorem segments_of_steps {segments : List String} (asked : tree.steps path = .ok segments) :
    ∃ outer, Path.segments path = outer ++ segments := by
  -- A path is refused or taken as it is, unless it is absolute: then its first pieces lead to the working directory.
  unfold steps at asked
  split at asked
  · cases asked
  · split at asked
    · cases asked
    · split at asked
      · cases asked
      · split at asked
        · dsimp only at asked
          split at asked
          · cases asked
            exact ⟨_, (List.take_append_drop _ _).symm⟩
          · cases asked
        · cases asked
          exact ⟨[], rfl⟩

/-- The last name of a path to a file is the name of the file. -/
theorem fileName?_of_locate (located : tree.locate path = .ok location)
    (found : tree.get? location = some (.file content)) :
    Path.fileName? path = location.getLast? := by
  rw [locate, bind_eq_ok_iff] at located
  obtain ⟨segments, asked, made⟩ := located
  -- The last step that is made and the last piece of the path are the same name.
  obtain ⟨name, last, same, named⟩ := getLast?_of_steps made found
  obtain ⟨outer, pieces⟩ := segments_of_steps asked
  have last : (Path.segments path).getLast? = some name := by
    simp [pieces, last]
  rw [Path.fileName?_of_segments last named, same]

end Locating

/-! ### Reading and writing -/

section Writing

variable {tree : FileTree} {path : String} {location other : Location} {content written : ByteArray}
  {text : Text}

/-- Other bytes at one place change nothing at another. -/
theorem lookup_overwriteIn_of_ne (entries : List (Location × Entry)) (apart : other ≠ location) :
    (overwriteIn location written entries).lookup other = entries.lookup other := by
  induction entries with
  | nil => rfl
  | cons pair rest ih =>
    obtain ⟨place, entry⟩ := pair
    rw [overwriteIn]
    split
    · rename_i same
      -- Only the entry that is changed could be in the way, and it is not looked for.
      have differs : (other == place) = false := by simpa [same] using apart
      rw [List.lookup_cons, List.lookup_cons, differs]
    · rw [List.lookup_cons, List.lookup_cons, ih]

/-- Where something is listed, the other bytes are found afterwards. -/
theorem lookup_overwriteIn_self (entries : List (Location × Entry)) {entry : Entry}
    (listed : entries.lookup location = some entry) :
    (overwriteIn location written entries).lookup location = some (.file written) := by
  induction entries with
  | nil => cases listed
  | cons pair rest ih =>
    obtain ⟨place, entry⟩ := pair
    rw [overwriteIn]
    -- The first entry at the place is the one that is overwritten and the one that is looked up.
    split
    · rename_i same
      rw [List.lookup_cons, same, beq_self_eq_true]
    · rename_i differs
      have differs : (location == place) = false := by simpa using Ne.symm differs
      rw [List.lookup_cons, differs] at listed ⊢
      exact ih listed

/-- Writing to a file changes nothing at other places. -/
theorem get?_overwrite_of_ne (tree : FileTree) (apart : other ≠ location) :
    (tree.overwrite location written).get? other = tree.get? other := by
  simp only [get?, overwrite, lookup_overwriteIn_of_ne tree.entries apart]

/-- What has been written to a file is there. -/
theorem get?_overwrite_self (found : tree.get? location = some (.file content)) :
    (tree.overwrite location written).get? location = some (.file written) := by
  unfold get? at found ⊢
  -- The working directory itself is no file, so the place is one of the entries.
  split at found
  · cases found
  · rename_i inside
    simp only [inside, if_false]
    exact lookup_overwriteIn_self tree.entries found

/-- Writing to a file leaves the layout as it is. -/
theorem sameLayout_overwrite (found : tree.get? location = some (.file content)) :
    SameLayout tree (tree.overwrite location written) := by
  refine ⟨rfl, ?_⟩
  have listed : tree.entries.lookup location = some (.file content) := by
    unfold get? at found
    split at found
    · cases found
    · exact found
  simp only [layout, overwrite]
  -- The entry that is changed is the first one listed at its place, which is a file before and after.
  revert listed
  induction tree.entries with
  | nil => intro listed; cases listed
  | cons pair rest ih =>
    obtain ⟨place, entry⟩ := pair
    intro listed
    rw [overwriteIn]
    split
    -- The first entry is the one that is written, and it stays a file.
    · rename_i same
      rw [List.lookup_cons, same, beq_self_eq_true] at listed
      cases listed
      rfl
    · rename_i differs
      have differs : (location == place) = false := by simpa using Ne.symm differs
      rw [List.lookup_cons, differs] at listed
      rw [List.map_cons, List.map_cons, ih listed]

/-- Bytes are those of a text exactly if they are what the text is written as. -/
theorem fromUTF8?_eq_some_iff {bytes : ByteArray} {string : String} :
    String.fromUTF8? bytes = some string ↔ bytes = string.toUTF8 := by
  unfold String.fromUTF8?
  constructor
  -- Bytes are read only if they are valid, and a text is written as valid ones.
  · intro read
    split at read
    · cases read
      rfl
    · cases read
  · intro written
    subst written
    rw [String.toUTF8_eq_toByteArray, dif_pos string.isValidUTF8]
    rfl

/-- A text is read from a path that leads to a file with the bytes of that text. -/
theorem readText_eq_ok_iff :
    tree.readText path = .ok text ↔
      ∃ location, tree.locate path = .ok location ∧
        tree.get? location = some (.file (String.ofList text).toUTF8) := by
  rw [readText, read, bind_eq_ok_iff]
  constructor
  -- The path has to lead to a file, and its bytes have to be those of a text.
  · intro ⟨bytes, found, decoded⟩
    obtain ⟨location, located, found⟩ := bind_eq_ok_iff.1 found
    refine ⟨location, located, ?_⟩
    split at found
    · rename_i bytes' isFile
      cases found
      split at decoded
      · rename_i string valid
        cases decoded
        rw [isFile, String.ofList_toList, ← fromUTF8?_eq_some_iff.1 valid]
      · cases decoded
    · cases found
    · cases found
  -- What a text is written as is read back.
  · intro ⟨location, located, found⟩
    refine ⟨(String.ofList text).toUTF8, ?_, ?_⟩
    · rw [bind_eq_ok_iff]
      exact ⟨location, located, by rw [found]⟩
    · rw [fromUTF8?_eq_some_iff.2 rfl]
      simp

/-- A text that is written to a file is what is read from it. -/
theorem writeText_of_file (text : Text) (located : tree.locate path = .ok location)
    (found : tree.get? location = some (.file content)) :
    tree.writeText path text = .ok (tree.overwrite location (String.ofList text).toUTF8) := by
  simp only [writeText, located, found]

end Writing

end FileTree

end CallersFirst
