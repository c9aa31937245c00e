import CallersFirst.Proofs.Command.Fix
import CallersFirst.Proofs.FileTree.Routes
import CallersFirst.Proofs.Path.Order
import Mathlib.Data.List.Pairwise

/-! How often a source file is listed among those that are found. -/

namespace CallersFirst

namespace FileTree

section Found

variable {tree : FileTree} {path found : String} {directory location : Location}

/-- Where no place is listed twice, the entry listed at a place is the one that is looked up. -/
theorem lookup_eq_of_mem {entries : List (Location × Entry)} {entry : Entry}
    (distinct : (entries.map (·.1)).Nodup) (listed : (location, entry) ∈ entries) :
    entries.lookup location = some entry := by
  induction entries with
  | nil => cases listed
  | cons pair rest ih =>
    obtain ⟨place, other⟩ := pair
    obtain ⟨fresh, distinct⟩ := List.nodup_cons.1 distinct
    -- The entry stands first, or the first one is at another place and the rest is searched.
    rcases List.mem_cons.1 listed with same | later
    · cases same
      rw [List.lookup_cons_self]
    · have apart : (location == place) = false := by
        refine beq_eq_false_iff_ne.2 fun same => fresh ?_
        exact List.mem_map.2 ⟨(location, entry), later, same⟩
      rw [List.lookup_cons, apart]
      exact ih distinct later

/-- What is listed at a place of a proper tree is found there. -/
theorem IsProper.get?_of_mem (proper : tree.IsProper) {entry : Entry} (listed : (location, entry) ∈ tree.entries)
    (inside : location ≠ []) : tree.get? location = some entry := by
  rw [get?, if_neg inside, lookup_eq_of_mem proper.distinct listed]

/-- What is found in a directory is an entry of it, looked at under its name. -/
theorem exists_entry_of_mem_findings {finding : Finding} (member : finding ∈ tree.findings directory path) :
    ∃ name entry, (directory ++ [name], entry) ∈ tree.entries ∧
      finding = ⟨directory ++ [name], Path.join path name, entry = .directory⟩ := by
  simp only [findings, children, List.map_filterMap, List.mem_filterMap, Prod.exists] at member
  obtain ⟨place, entry, listed, found⟩ := member
  -- Only entries with a last name whose other names are those of the directory are found.
  split at found
  · rename_i name last
    split at found
    · rename_i inside
      obtain ⟨front, rfl⟩ := List.getLast?_eq_some_iff.1 last
      rw [List.dropLast_concat] at inside
      subst inside
      exact ⟨name, entry, listed, by simpa using found.symm⟩
    · simp at found
  · simp at found

/-- A path of a file below a directory: further names behind the path of the directory, which lead to it. -/
structure FoundBelow (tree : FileTree) (path : String) (directory : Location) (found : String)
    (names : List String) : Prop where
  /-- The path starts as the one of the directory. -/
  lead : Path.lead? found = Path.lead? path
  /-- The path has the steps of the one of the directory and those to the file. -/
  components : Path.components found = Path.components path ++ names.map .name
  /-- The path leads to the file. -/
  located : tree.locate found = .ok (directory ++ names)
  /-- There is a file. -/
  isFile : ∃ content, tree.get? (directory ++ names) = some (.file content)

/-- Every file that a walk finds is found under a path that leads to it. -/
theorem IsProper.exists_names_of_walk (proper : tree.IsProper) {patterns : List IgnorePattern} {root : Anchor}
    (depth : Nat) :
    ∀ {outer : List IgnoreLevel} {directory : Location} {path : String} {paths : List String},
      tree.locate path = .ok directory → tree.get? directory = some .directory →
      tree.walk patterns root depth outer directory path = .ok paths →
      ∀ found ∈ paths, ∃ names, tree.FoundBelow path directory found names := by
  -- A walk goes from a directory to those inside it, each under a path that leads to it.
  induction depth with
  | zero =>
    intro outer directory path paths _ _ walked found member
    cases walked
    cases member
  | succ depth ih =>
    intro outer directory path paths located isDirectory walked found member
    have written : path ≠ "" := by
      obtain ⟨_, asked, _⟩ := exists_pieces_of_locate located
      exact (steps_eq_ok_iff.1 asked).2.1
    rw [walk] at walked
    split at walked
    · cases walked
    · obtain ⟨answers, answered, same⟩ := bind_eq_ok_iff.1 walked
      cases same
      obtain ⟨finding, isFinding, answer, asked, inside⟩ := (mem_flatten_of_mapM answered).1 member
      obtain ⟨name, entry, listed, rfl⟩ := exists_entry_of_mem_findings isFinding
      have isName := proper.named _ listed name (by simp)
      have there := proper.get?_of_mem listed (by simp)
      have lead := Path.lead?_join written isName
      have components := Path.components_join written isName
      have leads (short : Path.isTooLong (Path.join path name) = false) :=
        locate_join located isDirectory isName (by simp [there]) short
      split at asked
      · cases asked
        cases inside
      · split at asked
        · cases asked
          cases inside
        · split at asked
          · -- A directory is walked in its turn, which would fail if its path were too long.
            rename_i isInner
            have inner : entry = .directory := by simpa using isInner
            subst inner
            have short : Path.isTooLong (Path.join path name) = false := by
              by_contra long
              cases depth with
              | zero =>
                cases asked
                cases inside
              | succ depth =>
                rw [walk, if_pos (by simpa using long)] at asked
                cases asked
            obtain ⟨names, below⟩ := ih (leads short) there asked found inside
            refine ⟨name :: names, by rw [below.lead, lead], ?_, ?_, ?_⟩
            · rw [below.components, components]
              simp
            · simpa using below.located
            · simpa using below.isFile
          · rename_i isFile
            cases asked
            split at inside
            · cases inside
            · rename_i short
              rw [List.mem_singleton.1 inside]
              refine ⟨[name], lead, components, leads (by simpa using short), ?_⟩
              cases entry with
              | directory => simp at isFile
              | file content => exact ⟨content, there⟩

end Found

/-- A path under which a source file is found at or below a root. -/
def Finds (tree : FileTree) (settings : Settings) (root path : String) : Prop :=
  ∃ paths, collectAt tree settings root = .ok paths ∧ path ∈ paths

/-- Roots of which no two lead to one file by different steps. -/
def ReachedAlike (tree : FileTree) (settings : Settings) (roots : List String) : Prop :=
  ∀ first ∈ roots, ∀ second ∈ roots, ∀ path other location,
    tree.Finds settings first path → tree.Finds settings second other →
    tree.locate path = .ok location → tree.locate other = .ok location →
    Path.components path = Path.components other

section Roots

variable {tree : FileTree} {settings : Settings} {roots : List String} {root path : String}

/-- A file is found under the root itself, or under further names behind the root. -/
theorem IsProper.exists_names_of_finds (proper : tree.IsProper) (finds : tree.Finds settings root path) :
    ∃ place names, tree.FoundBelow root place path names := by
  obtain ⟨paths, collects, member⟩ := finds
  -- The root leads nowhere, to a file, which is found itself, or to a directory, which is walked.
  unfold collectAt at collects
  split at collects
  · cases collects
  · rename_i location located
    split at collects
    · cases collects
    · rename_i content isFile
      cases collects
      rw [List.mem_singleton.1 member]
      exact ⟨location, [], rfl, by simp, by simpa using located, content, by simpa using isFile⟩
    · rename_i isDirectory
      obtain ⟨patterns, _, collects⟩ := bind_eq_ok_iff.1 collects
      split at collects
      · cases collects
        cases member
      -- Whatever is found in the walk is kept only if it passes the filter.
      · obtain ⟨below, walked, same⟩ := bind_eq_ok_iff.1 collects
        cases same
        unfold filesBelow at walked
        simp only at walked
        split at walked
        · have isBelow := (List.mem_filter.1 member).1
          exact ⟨location, proper.exists_names_of_walk _ located isDirectory walked path isBelow⟩
        · cases walked

/-- Roots that start alike and never go back lead to every file by the same steps. -/
theorem IsProper.reachedAlike_of_forward (proper : tree.IsProper)
    (forward : ∀ root ∈ roots, .parent ∉ Path.components root)
    (alike : ∀ first ∈ roots, ∀ second ∈ roots, Path.lead? first = Path.lead? second) :
    tree.ReachedAlike settings roots := by
  -- The start of a path and the place to which it leads tell all its steps.
  have told : ∀ root ∈ roots, ∀ path location, tree.Finds settings root path →
      tree.locate path = .ok location → Path.components path = (Path.lead? root).toList ++
        ((tree.outerPieces root).filterMap Path.component? ++ location.map .name) := by
    intro root isRoot path location finds located
    obtain ⟨place, names, below⟩ := proper.exists_names_of_finds finds
    have stillForward : .parent ∉ Path.components path := by
      rw [below.components]
      simpa using forward root isRoot
    rw [components_of_locate located stillForward, below.lead, outerPieces_congr below.lead]
  intro first isFirst second isSecond path other location finds otherFinds located otherLocated
  have same := alike first isFirst second isSecond
  rw [told first isFirst path location finds located, told second isSecond other location otherFinds otherLocated,
    same, outerPieces_congr same]

end Roots

end FileTree

section Collect

variable {files : FileTree} {settings : Settings} {roots found : List String}

/-- The paths that are listed are found under some root, and each path that is found has one with its steps listed. -/
theorem finds_of_collect (collected : collect files settings roots = .ok found) :
    (∀ path ∈ found, ∃ root ∈ roots, files.Finds settings root path) ∧
    ∀ root ∈ roots, ∀ path, files.Finds settings root path →
      ∃ listed ∈ found, Path.components listed = Path.components path := by
  obtain ⟨answers, answered, same⟩ := bind_eq_ok_iff.1 collected
  cases same
  -- Sorting drops only paths that have the steps of one that is kept.
  constructor
  · intro path member
    obtain ⟨root, isRoot, paths, collects, isFound⟩ :=
      (mem_flatten_of_mapM answered).1 (Path.mem_of_mem_sortDistinct member)
    exact ⟨root, isRoot, paths, collects, isFound⟩
  · rintro root isRoot path ⟨paths, collects, isFound⟩
    exact Path.exists_mem_sortDistinct ((mem_flatten_of_mapM answered).2 ⟨root, isRoot, paths, collects, isFound⟩)

/-- Of paths that lead apart, only one leads to a given place. -/
theorem FileTree.LeadApart.eq_of_locate {location : Location} {paths : List String} (apart : files.LeadApart paths)
    {first second : String} (isFirst : first ∈ paths) (isSecond : second ∈ paths)
    (located : files.locate first = .ok location) (otherLocated : files.locate second = .ok location) :
    first = second := by
  by_contra differ
  have symmetric : Std.Symm fun first second => ∀ location, files.locate first = .ok location →
      files.locate second ≠ .ok location :=
    ⟨fun _ _ leads location there here => leads location here there⟩
  exact List.Pairwise.forall apart isFirst isSecond differ location located otherLocated

variable (proper : files.IsProper) (collected : collect files settings roots = .ok found)
include proper collected

/-- Every path that is listed leads to a file. -/
theorem exists_file_of_collect {path : String} (listed : path ∈ found) :
    ∃ location content, files.locate path = .ok location ∧ files.get? location = some (.file content) := by
  obtain ⟨root, _, finds⟩ := (finds_of_collect collected).1 path listed
  obtain ⟨place, names, below⟩ := proper.exists_names_of_finds finds
  obtain ⟨content, isFile⟩ := below.isFile
  exact ⟨_, content, below.located, isFile⟩

/-- Every path that is found under a root has one with its steps listed, which leads to the same file. -/
theorem exists_listed_of_finds {root path : String} (isRoot : root ∈ roots)
    (finds : files.Finds settings root path) :
    ∃ listed ∈ found, Path.components listed = Path.components path ∧ files.locate listed = files.locate path := by
  obtain ⟨listed, isListed, steps⟩ := (finds_of_collect collected).2 root isRoot path finds
  obtain ⟨location, _, located, _⟩ := exists_file_of_collect proper collected isListed
  obtain ⟨place, names, below⟩ := proper.exists_names_of_finds finds
  refine ⟨listed, isListed, steps, ?_⟩
  rw [located, below.located, FileTree.locate_congr steps located below.located]

/-- The listed paths lead to different files exactly if no file is reached by two ways. -/
theorem leadApart_iff_reachedAlike : files.LeadApart found ↔ files.ReachedAlike settings roots := by
  constructor
  · intro apart first isFirst second isSecond path other location finds otherFinds located otherLocated
    obtain ⟨kept, isKept, steps, place⟩ := exists_listed_of_finds proper collected isFirst finds
    obtain ⟨otherKept, isOtherKept, otherSteps, otherPlace⟩ :=
      exists_listed_of_finds proper collected isSecond otherFinds
    have same := apart.eq_of_locate isKept isOtherKept (place.trans located) (otherPlace.trans otherLocated)
    rw [← steps, ← otherSteps, same]
  · intro alike
    obtain ⟨answers, _, same⟩ := bind_eq_ok_iff.1 collected
    cases same
    -- No two paths with the same steps are left, so that two which lead to one file would be two ways to it.
    refine (Path.pairwise_sortDistinct answers.flatten).imp_of_mem ?_
    intro first second isFirst isSecond differ location located otherLocated
    obtain ⟨root, isRoot, finds⟩ := (finds_of_collect collected).1 first isFirst
    obtain ⟨otherRoot, isOtherRoot, otherFinds⟩ := (finds_of_collect collected).1 second isSecond
    exact differ (alike root isRoot otherRoot isOtherRoot first second location finds otherFinds located otherLocated)

/--
The source files at or below some paths are all listed, and each of them once exactly if no two of the paths
lead to it by different steps.

So each is listed once if the given paths start alike and never go back, whether they are directories or files and
however they lie in one another. Slashes that are doubled and dots inside a path make no difference.
-/
theorem collect_listsOnce_iff :
    (∀ path ∈ found, ∃ location content, files.locate path = .ok location ∧
      files.get? location = some (.file content)) ∧
    (∀ root ∈ roots, ∀ path, files.Finds settings root path →
      ∃ listed ∈ found, Path.components listed = Path.components path ∧ files.locate listed = files.locate path) ∧
    (files.LeadApart found ↔ files.ReachedAlike settings roots) ∧
    ((∀ root ∈ roots, .parent ∉ Path.components root) →
      (∀ first ∈ roots, ∀ second ∈ roots, Path.lead? first = Path.lead? second) → files.LeadApart found) := by
  refine ⟨fun path listed => exists_file_of_collect proper collected listed,
    fun root isRoot path finds => exists_listed_of_finds proper collected isRoot finds,
    leadApart_iff_reachedAlike proper collected, fun forward alike => ?_⟩
  exact (leadApart_iff_reachedAlike proper collected).2 (proper.reachedAlike_of_forward forward alike)

end Collect

namespace Sample

/-- A directory with two files. -/
def nested : FileTree :=
  { home := "/work", entries := [(["src"], .directory), (["src", "a.js"], .file (String.ofList source).toUTF8),
      (["src", "b.js"], .file (String.ofList sorted).toUTF8)] }

/-- Settings without patterns of what to skip. -/
def skipNothing : Settings :=
  { project := { ignorePatterns := [] } }

/-- The tree with a directory is proper. -/
theorem isProper_nested : nested.IsProper :=
  ⟨by decide, by decide⟩

/-- One of the files is found twice, under paths with the same steps. -/
theorem collect_nested : collect nested skipNothing ["src//a.js", "src"] = .ok ["src//a.js", "src/b.js"] := by
  have first : collectAt nested skipNothing "src//a.js" = .ok ["src//a.js"] := by rfl
  have second : collectAt nested skipNothing "src" = .ok ["src/a.js", "src/b.js"] := by rfl
  -- The two spellings of the file have the same steps, so one of them is dropped.
  have listed : Path.sortDistinct ["src//a.js", "src/a.js", "src/b.js"] = ["src//a.js", "src/b.js"] := by
    rw [Path.sortDistinct_of_pairwise (by decide)]
    decide
  simp only [collect, List.mapM_cons, List.mapM_nil, first, second]
  exact congrArg Except.ok listed

/-- The files of the sample are a proper tree. -/
theorem isProper_world : world.files.IsProper :=
  ⟨by decide, by decide⟩

/-- A dot at the start of a path is a step of its own. -/
theorem collect_dotted : collect world.files {} ["./a.js", "a.js"] = .ok ["./a.js", "a.js"] := by
  have first : collectAt world.files {} "./a.js" = .ok ["./a.js"] := by rfl
  have second : collectAt world.files {} "a.js" = .ok ["a.js"] := by rfl
  -- The dot makes the steps differ, so nothing is dropped.
  have listed : Path.sortDistinct ["./a.js", "a.js"] = ["./a.js", "a.js"] := by
    rw [Path.sortDistinct_of_pairwise (by decide)]
    decide
  simp only [collect, List.mapM_cons, List.mapM_nil, first, second]
  exact congrArg Except.ok listed

/-- Under its other spelling the first file of the sample is settled as well. -/
theorem settledAt_dotted : world.files.settledAt parser {} "./a.js" = .ok (some sorted) := by
  have read : parseFile parser {} world.files "./a.js" = .ok (file.renamed "./a.js") :=
    FileTree.parseFile_eq_ok_iff.2 ⟨source, FileTree.readText_eq_ok_iff.2 ⟨["a.js"], rfl, rfl⟩, rfl⟩
  have parsed : parseText parser {} "./a.js" sorted = .ok (sortedFile.renamed "./a.js") := by rfl
  -- One round sorts the file and a second finds it settled.
  have settled : settle parser {} (file.renamed "./a.js") = ⟨[], .ok (some sorted)⟩ := by
    rw [settle, show ({} : OrderingSettings).maxPasses = 6 + 1 + 1 from rfl, settleFrom]
    simp only [file, ParsedFile.renamed, reorder_source, parsed]
    rw [settleFrom]
    simp only [sortedFile, reorder_sorted]
    rfl
  exact FileTree.settledAt_eq_ok_iff.2 ⟨_, read, by rw [settled]⟩

end Sample

/-- A file that is given with a doubled slash and found in its directory as well is listed once. -/
theorem collect_listsOnce_iff_sample :
    Sample.nested.IsProper ∧
      collect Sample.nested Sample.skipNothing ["src//a.js", "src"] = .ok ["src//a.js", "src/b.js"] ∧
      Sample.nested.LeadApart ["src//a.js", "src/b.js"] ∧
      Sample.nested.ReachedAlike Sample.skipNothing ["src//a.js", "src"] := by
  obtain ⟨_, _, apart_iff, listedOnce⟩ := collect_listsOnce_iff Sample.isProper_nested Sample.collect_nested
  have apart := listedOnce (by decide) (by decide)
  exact ⟨Sample.isProper_nested, Sample.collect_nested, apart, apart_iff.1 apart⟩

/-- A file that is given with and without a dot at the start is listed twice, and counted twice. -/
theorem file_listed_twice :
    Sample.world.files.IsProper ∧ collect Sample.world.files {} ["./a.js", "a.js"] = .ok ["./a.js", "a.js"] ∧
      Sample.world.files.locate "./a.js" = Sample.world.files.locate "a.js" ∧
      ¬ Sample.world.files.LeadApart ["./a.js", "a.js"] ∧
      (Command.act (Command.fix Sample.parser {} ["./a.js", "a.js"] true) Sample.world).1 =
        .ok ⟨2, ["./a.js", "a.js"]⟩ := by
  have first : Sample.world.files.locate "./a.js" = .ok ["a.js"] := by rfl
  have second : Sample.world.files.locate "a.js" = .ok ["a.js"] := by rfl
  have settled : Sample.world.files.settledAt Sample.parser {} "a.js" = .ok (some Sample.sorted) :=
    FileTree.settledAt_eq_ok_iff.2 ⟨Sample.file, Sample.parseFile_world, by rw [Sample.settle_file]⟩
  have collected : Command.collected {} ["./a.js", "a.js"] Sample.world.files = .ok ["./a.js", "a.js"] :=
    Sample.collect_dotted
  refine ⟨Sample.isProper_world, Sample.collect_dotted, first.trans second.symm, ?_, ?_⟩
  · simp [FileTree.LeadApart, first, second]
  -- A dry run counts the file under both of its spellings.
  · rw [(Command.fix_dry Sample.parser collected).1, FileTree.changedAmong_cons_of_ok Sample.settledAt_dotted,
      FileTree.changedAmong_cons_of_ok settled]
    rfl

end CallersFirst
