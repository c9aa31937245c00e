import CallersFirst.Collection
import CallersFirst.Proofs.FileTree

/-! Which source files are found does not depend on what is written in them. -/

namespace CallersFirst

namespace FileTree

/-- The names of the files that say what to skip, or where such files are. -/
def ruleNames : List String :=
  [".ignore", ".gitignore", ".git", "exclude", "commondir"]

/-- Two states of a tree with the same layout and the same rules about what to skip. -/
structure SameRules (before after : FileTree) : Prop extends SameLayout before after where
  /-- Whatever has the name of a file with rules is as it was. -/
  rules : ∀ location name, location.getLast? = some name → name ∈ ruleNames →
    after.get? location = before.get? location

/-- What is found in a directory is read off the layout. -/
theorem findings_eq (tree : FileTree) (directory : Location) (path : String) :
    tree.findings directory path =
      tree.layout.filterMap fun (place, isDirectory) =>
        match place.getLast? with
        | some name =>
          if place.dropLast = directory then some ⟨directory ++ [name], Path.join path name, isDirectory⟩
          else none
        | none => none := by
  unfold findings children layout
  induction tree.entries with
  | nil => rfl
  | cons pair rest ih =>
    -- The kind of an entry is all that is read of it, so the two lists run in step.
    obtain ⟨place, entry⟩ := pair
    simp only [List.map_cons, List.filterMap_cons]
    cases place.getLast? with
    | none => exact ih
    | some name =>
      by_cases inside : place.dropLast = directory
      · simp only [inside, if_true, List.map_cons, ih]
      · simp only [inside, if_false, ih]

/-- The depth of a tree is read off the layout. -/
theorem depth_eq (tree : FileTree) :
    tree.depth = tree.layout.foldl (fun deepest (location, _) => max deepest location.length) 0 := by
  rw [depth, layout, List.foldl_map]

/-- A file whose language is known is none with rules. -/
theorem not_mem_ruleNames {parsing : ParsingSettings} {path name : String}
    (known : (parsing.languageOf? path).isSome) (named : Path.fileName? path = some name) :
    name ∉ ruleNames := by
  intro isRule
  -- None of the names with rules has an extension.
  have bare : ∀ rule ∈ ruleNames, Path.fileName? rule = some rule ∧ Path.extension? rule = none := by
    decide
  have same : Path.fileName? path = Path.fileName? name := by
    rw [named, (bare name isRule).1]
  rw [ParsingSettings.languageOf?, Language.ofPath?, Path.extension?_congr same, (bare name isRule).2] at known
  cases known

namespace SameRules

variable {before after : FileTree}

/-- Every tree has the layout and the rules that it has. -/
theorem refl (tree : FileTree) : SameRules tree tree :=
  ⟨SameLayout.refl tree, fun _ _ _ _ => rfl⟩

/-- Layout and rules that stay the same twice stay the same. -/
theorem trans {first second third : FileTree} (one : SameRules first second)
    (two : SameRules second third) : SameRules first third :=
  ⟨one.toSameLayout.trans two.toSameLayout, fun location name last rule =>
    (two.rules location name last rule).trans (one.rules location name last rule)⟩

/-- A path to a file with rules leads to the same entry. -/
theorem get?_of_locate (same : SameRules before after) {path name : String} {location : Location}
    (named : Path.fileName? path = some name) (rule : name ∈ ruleNames)
    (located : before.locate path = .ok location) : after.get? location = before.get? location := by
  rcases same.get?_cases location with ⟨old, new⟩ | ⟨old, new⟩ | ⟨content, written, old, new⟩
  · rw [old, new]
  · rw [old, new]
  · -- The file bears the name by which the path asks for it.
    exact same.rules location name ((fileName?_of_locate located old).symm.trans named) rule

/-- A path to a file of rules leads to the same file. -/
theorem entry? (same : SameRules before after) {path name : String}
    (named : Path.fileName? path = some name) (rule : name ∈ ruleNames) :
    after.entry? path = before.entry? path := by
  rw [FileTree.entry?, FileTree.entry?, same.locate]
  cases located : before.locate path with
  | error cause => rfl
  | ok location => exact same.get?_of_locate named rule located

/-- A repository shares the same directory. -/
theorem sharedDirectory? (same : SameRules before after) (repository : String) :
    after.sharedDirectory? repository = before.sharedDirectory? repository := by
  -- The file that names the shared directory is one of those with rules, so it reads the same.
  have named : Path.fileName? (Path.join repository "commondir") = some "commondir" :=
    Path.fileName?_of_segments (Path.getLast?_segments_join repository (by decide)) rfl
  have read := same.read fun location => same.get?_of_locate named (by decide)
  have line : after.firstLine (Path.join repository "commondir") =
      before.firstLine (Path.join repository "commondir") := by
    simp only [firstLine, read]
  unfold FileTree.sharedDirectory?
  simp only [line]

/-- A file that stands for the data of a repository leads to the same directory. -/
theorem linkedRepository? (same : SameRules before after) (path : String) (content : ByteArray) :
    after.linkedRepository? path content = before.linkedRepository? path content := by
  simp only [FileTree.linkedRepository?, same.sharedDirectory?]

/-- What lies below a directory has the same path. -/
theorem pathBelow (same : SameRules before after) (directory : Anchor) (names : List String) :
    after.pathBelow directory names = before.pathBelow directory names := by
  simp only [FileTree.pathBelow, pathOf, same.home]

/-- Below a directory, the files with rules are the same. -/
theorem entryBelow? (same : SameRules before after) (directory : Anchor) (names : List String) {name : String}
    (last : names.getLast? = some name) (rule : name ∈ ruleNames) :
    after.entryBelow? directory names = before.entryBelow? directory names := by
  have found := same.rules (directory.place ++ names) name (by simp [last]) rule
  simp only [FileTree.entryBelow?, same.pathBelow, found]

/-- Below a directory, the same names stand for something. -/
theorem isSome_entryBelow? (same : SameRules before after) (directory : Anchor) (names : List String) :
    (after.entryBelow? directory names).isSome = (before.entryBelow? directory names).isSome := by
  -- Whether something is there goes by its kind alone, whatever its name.
  have kind := congrArg Option.isSome (same.directoryAt? (directory.place ++ names))
  simp only [directoryAt?, Option.isSome_map] at kind
  simp only [FileTree.entryBelow?, same.pathBelow]
  split
  · rfl
  · exact kind

/-- A directory adds the same rules. -/
theorem ignoreLevel (same : SameRules before after) (directory : Anchor) :
    after.ignoreLevel directory = before.ignoreLevel directory := by
  -- The exclude file is known by its last name, however its directory is spelled.
  have exclude (data : String) : Path.fileName? (Path.join data "info/exclude") = some "exclude" := by
    obtain ⟨front, written⟩ := Path.exists_toList_join data "info/exclude"
    refine Path.fileName?_of_segments (Path.getLast?_segments (front ++ "info".toList) ?_ (by decide)) rfl
    rw [written, List.append_assoc]
    rfl
  simp only [FileTree.ignoreLevel, same.pathBelow, same.isSome_entryBelow?,
    same.entryBelow? directory [".ignore"] rfl (by decide),
    same.entryBelow? directory [".gitignore"] rfl (by decide),
    same.entryBelow? directory [".git"] rfl (by decide),
    same.entryBelow? directory [".git", "info", "exclude"] rfl (by decide),
    same.linkedRepository?, same.entry? (exclude _) (by decide)]

/-- The same files are found below a directory. -/
theorem walk (same : SameRules before after) (patterns : List IgnorePattern) (root : Anchor) (depth : Nat) :
    ∀ outer directory path, after.walk patterns root depth outer directory path =
      before.walk patterns root depth outer directory path := by
  induction depth with
  | zero =>
    intro outer directory path
    rfl
  | succ depth ih =>
    intro outer directory path
    -- The directory lists the same, adds the same rules, and below it less depth is left.
    have found : after.findings directory path = before.findings directory path := by
      rw [findings_eq, findings_eq, same.layout]
    simp only [FileTree.walk, found, same.ignoreLevel, ih]

/-- The same files are found below a directory. -/
theorem filesBelow (same : SameRules before after) (patterns : List IgnorePattern) (directory : Location)
    (path : String) :
    after.filesBelow patterns directory path = before.filesBelow patterns directory path := by
  have depth : after.depth = before.depth := by
    rw [depth_eq, depth_eq, same.layout]
  simp only [FileTree.filesBelow, same.ignoreLevel, same.walk, depth]

/-- The same source files are found at or below a path. -/
theorem collectAt (same : SameRules before after) (settings : Settings) (root : String) :
    CallersFirst.collectAt after settings root = CallersFirst.collectAt before settings root := by
  unfold CallersFirst.collectAt
  rw [same.locate]
  cases located : before.locate root with
  | error cause => rfl
  | ok location =>
    -- Only the content of a file can differ, which is not asked for here.
    rcases same.get?_cases location with ⟨old, new⟩ | ⟨old, new⟩ | ⟨content, written, old, new⟩
    · simp only [old, new]
    · simp only [old, new, same.filesBelow]
    · simp only [old, new]

/-- The same source files are found at or below some paths. -/
theorem collect (same : SameRules before after) (settings : Settings) (roots : List String) :
    CallersFirst.collect after settings roots = CallersFirst.collect before settings roots := by
  have each : CallersFirst.collectAt after settings = CallersFirst.collectAt before settings :=
    funext (same.collectAt settings)
  simp only [CallersFirst.collect, each]

end SameRules

end FileTree

end CallersFirst
