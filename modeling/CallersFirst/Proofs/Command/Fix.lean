import CallersFirst.Command.Fix
import CallersFirst.Proofs.Command
import CallersFirst.Proofs.Settling.Again

/-! Putting files in order, one after another: what is written, what is left alone, and what a dry run tells of it. -/

namespace CallersFirst

namespace FileTree

/-- What comes of settling the file at a path. -/
def settledAt (parser : Parser) (settings : Settings) (files : FileTree) (path : String) :
    Except Failure (Option Text) := do
  let file ← parseFile parser settings.parsing files path
  (settle parser settings file).result

/-- The files once the one at a path has been put in order. -/
def fixedAt (parser : Parser) (settings : Settings) (files : FileTree) (path : String) : FileTree :=
  match files.settledAt parser settings path with
  | .ok (some text) => (files.writeText path text).toOption.getD files
  | _ => files

section One

variable {parser : Parser} {settings : Settings} {files : FileTree} {path : String}

/-- A file is read if there is a text at its path that can be read. -/
theorem parseFile_eq_ok_iff {parsing : ParsingSettings} {file : ParsedFile} :
    parseFile parser parsing files path = .ok file ↔
      ∃ source, files.readText path = .ok source ∧ parseText parser parsing path source = .ok file := by
  unfold parseFile
  cases files.readText path with
  | error cause => simp
  | ok source => simp

/-- A file bears the path from which it was read. -/
theorem path_of_parseFile {parsing : ParsingSettings} {file : ParsedFile}
    (parsed : parseFile parser parsing files path = .ok file) : file.path = path := by
  obtain ⟨source, _, parsed⟩ := parseFile_eq_ok_iff.1 parsed
  exact path_of_parseText parsed

/-- A file is settled if it can be read and settling it does not fail. -/
theorem settledAt_eq_ok_iff {outcome : Option Text} :
    files.settledAt parser settings path = .ok outcome ↔
      ∃ file, parseFile parser settings.parsing files path = .ok file ∧
        (settle parser settings file).result = .ok outcome :=
  bind_eq_ok_iff

/-- What happens to the files at a path: nothing, or a text is written to a source file. -/
theorem fixedAt_cases (parser : Parser) (settings : Settings) (files : FileTree) (path : String) :
    (∀ text, files.settledAt parser settings path ≠ .ok (some text)) ∧
        files.fixedAt parser settings path = files ∨
      ∃ text location content, files.settledAt parser settings path = .ok (some text) ∧
        (settings.parsing.languageOf? path).isSome ∧ files.locate path = .ok location ∧
        files.get? location = some (.file content) ∧
        files.writeText path text = .ok (files.fixedAt parser settings path) ∧
        files.fixedAt parser settings path = files.overwrite location (String.ofList text).toUTF8 := by
  -- Without a text to write the files stay as they are.
  cases settled : files.settledAt parser settings path with
  | error failure =>
    refine .inl ⟨nofun, ?_⟩
    simp only [fixedAt, settled]
  | ok outcome =>
    cases outcome with
    | none =>
      refine .inl ⟨nofun, ?_⟩
      simp only [fixedAt, settled]
    | some text =>
      -- The file has been read, so that it is there and its language is known.
      obtain ⟨file, parsed, _⟩ := settledAt_eq_ok_iff.1 settled
      obtain ⟨source, readable, parsed⟩ := parseFile_eq_ok_iff.1 parsed
      obtain ⟨language, tree, known, _⟩ := parseText_eq_ok_iff.1 parsed
      obtain ⟨location, located, found⟩ := readText_eq_ok_iff.1 readable
      have written := writeText_of_file text located found
      have fixed : files.fixedAt parser settings path =
          files.overwrite location (String.ofList text).toUTF8 := by
        simp only [fixedAt, settled, written]
        rfl
      refine .inr ⟨text, location, _, rfl, ?_, located, found, ?_, fixed⟩
      · rw [known]
        rfl
      · rw [fixed, written]

/-- Putting a file in order changes neither the layout nor any rules about what to skip. -/
theorem sameRules_fixedAt (parser : Parser) (settings : Settings) (files : FileTree) (path : String) :
    files.SameRules (files.fixedAt parser settings path) := by
  obtain ⟨_, same⟩ | ⟨text, location, content, _, known, located, found, _, fixed⟩ :=
    fixedAt_cases parser settings files path
  · rw [same]
    exact SameRules.refl files
  · rw [fixed]
    refine ⟨sameLayout_overwrite found, fun other name last rule => ?_⟩
    -- The file that is written bears the name of a source file.
    apply get?_overwrite_of_ne
    intro same
    subst same
    exact not_mem_ruleNames known ((fileName?_of_locate located found).trans last) rule

/-- What has come of settling a file is read from it afterwards. -/
theorem readText_fixedAt {text : Text} (settled : files.settledAt parser settings path = .ok (some text)) :
    (files.fixedAt parser settings path).readText path = .ok text := by
  obtain ⟨alone, _⟩ | ⟨other, location, content, same, _, located, found, _, fixed⟩ :=
    fixedAt_cases parser settings files path
  -- A file that is left alone has not been settled to another text.
  · exact absurd settled (alone text)
  · rw [settled] at same
    cases same
    rw [readText_eq_ok_iff, (sameRules_fixedAt parser settings files path).locate, fixed]
    exact ⟨location, located, get?_overwrite_self found⟩

/-- Putting a file in order changes nothing at a place to which its path does not lead. -/
theorem get?_fixedAt {location : Location} (apart : files.locate path = .ok location →
      ∀ text, files.settledAt parser settings path ≠ .ok (some text)) :
    (files.fixedAt parser settings path).get? location = files.get? location := by
  obtain ⟨_, same⟩ | ⟨text, place, content, settled, _, located, found, _, fixed⟩ :=
    fixedAt_cases parser settings files path
  -- Only the place to which the path leads is written, and only with a settled text.
  · rw [same]
  · rw [fixed]
    apply get?_overwrite_of_ne
    intro same
    subst same
    exact apart located text settled

/-- What comes of settling a file depends on what its path leads to. -/
theorem settledAt_congr {before after : FileTree} (same : before.SameLayout after)
    (kept : ∀ location, before.locate path = .ok location → after.get? location = before.get? location) :
    after.settledAt parser settings path = before.settledAt parser settings path := by
  simp only [settledAt, parseFile, readText, same.read kept]

/-- Putting a file in order makes no difference to one that is elsewhere. -/
theorem settledAt_fixedAt_of_apart {other : String}
    (apart : ∀ location, files.locate path = .ok location → files.locate other ≠ .ok location) :
    (files.fixedAt parser settings path).settledAt parser settings other =
      files.settledAt parser settings other := by
  apply settledAt_congr (sameRules_fixedAt parser settings files path).toSameLayout
  intro location located
  exact get?_fixedAt fun same => absurd located (apart location same)

end One

/-- Paths of which no two lead to the same place. -/
def LeadApart (files : FileTree) (paths : List String) : Prop :=
  paths.Pairwise fun first second => ∀ location, files.locate first = .ok location →
    files.locate second ≠ .ok location

/--
The files once some of them have been put in order.

Each of these has the text that came of settling it, and nothing else is changed.
-/
structure Rewritten (parser : Parser) (settings : Settings) (before after : FileTree) (paths : List String) :
    Prop where
  /-- The same files are there. -/
  same : before.SameRules after
  /-- The texts that came of settling files are written to them. -/
  written : ∀ path ∈ paths, ∀ text, before.settledAt parser settings path = .ok (some text) →
    after.readText path = .ok text
  /-- Nothing is changed at other places. -/
  kept : ∀ location, (∀ path ∈ paths, before.locate path = .ok location →
    ∀ text, before.settledAt parser settings path ≠ .ok (some text)) → after.get? location = before.get? location

section Several

variable {parser : Parser} {settings : Settings} {files before after : FileTree} {path : String}
  {paths done : List String}

/-- Whether paths lead apart depends on the layout of the tree only. -/
theorem LeadApart.of_sameLayout (apart : before.LeadApart paths) (same : before.SameLayout after) :
    after.LeadApart paths := by
  refine apart.imp fun {first second} differ location => ?_
  rw [same.locate, same.locate]
  exact differ location

/-- Putting no file in order changes nothing. -/
theorem rewritten_nil (files : FileTree) : Rewritten parser settings files files [] :=
  ⟨SameRules.refl files, fun _ member => absurd member List.not_mem_nil, fun _ _ => rfl⟩

/-- Files put in order one after another are put in order together, as long as they are different ones. -/
theorem Rewritten.cons
    (apart : ∀ other ∈ done, ∀ location, files.locate path = .ok location → files.locate other ≠ .ok location)
    (further : Rewritten parser settings (files.fixedAt parser settings path) after done) :
    Rewritten parser settings files after (path :: done) := by
  have first := sameRules_fixedAt parser settings files path
  have others : ∀ other ∈ done, (files.fixedAt parser settings path).settledAt parser settings other =
      files.settledAt parser settings other :=
    fun other member => settledAt_fixedAt_of_apart (apart other member)
  refine ⟨first.trans further.same, ?_, ?_⟩
  · intro current member text settled
    rcases List.mem_cons.1 member with rfl | member
    · -- What was written first is not touched again.
      have stays : after.read current = (files.fixedAt parser settings current).read current := by
        refine further.same.read fun location located => further.kept location fun other isOther same => ?_
        rw [first.locate] at located same
        exact absurd same (apart other isOther location located)
      rw [readText, stays]
      exact readText_fixedAt settled
    · exact further.written current member text ((others current member).trans settled)
  · intro location untouched
    -- The other files lead elsewhere, so what is at such a place is what the first one has left there.
    have later : after.get? location = (files.fixedAt parser settings path).get? location := by
      refine further.kept location fun other member located text => ?_
      rw [others other member]
      rw [first.locate] at located
      exact untouched other (List.mem_cons_of_mem _ member) located text
    rw [later]
    exact get?_fixedAt (untouched path List.mem_cons_self)

/-- A file that is none of those put in order is read as before. -/
theorem Rewritten.readText (rewritten : Rewritten parser settings before after done) {later : String}
    (apart : ∀ path ∈ done, ∀ location, before.locate path = .ok location → before.locate later ≠ .ok location) :
    after.readText later = before.readText later := by
  have stays : after.read later = before.read later := by
    refine rewritten.same.read fun location located => rewritten.kept location fun path member same => ?_
    exact absurd located (apart path member location same)
  rw [FileTree.readText, FileTree.readText, stays]

/-- Which of some files would come out changed, the first failure ending the search. -/
def changedAmong (parser : Parser) (settings : Settings) (files : FileTree) :
    List String → Except Failure (List String)
  | [] => .ok []
  | path :: rest => do
    let outcome ← files.settledAt parser settings path
    let others ← changedAmong parser settings files rest
    return if outcome.isSome then path :: others else others

/-- A file that cannot be settled ends the search with its failure. -/
theorem changedAmong_cons_of_error {failure : Failure}
    (failed : files.settledAt parser settings path = .error failure) :
    files.changedAmong parser settings (path :: paths) = .error failure := by
  rw [changedAmong, failed]
  rfl

/-- A file that is settled stands before the others if it comes out changed. -/
theorem changedAmong_cons_of_ok {outcome : Option Text}
    (settled : files.settledAt parser settings path = .ok outcome) :
    files.changedAmong parser settings (path :: paths) =
      (files.changedAmong parser settings paths).map fun others =>
        if outcome.isSome then path :: others else others := by
  rw [changedAmong, settled]
  cases files.changedAmong parser settings paths with
  | error failure => rfl
  | ok others => rfl

/-- The files that would come out changed are those that are settled with a text. -/
theorem changedAmong_eq_ok {changed : List String}
    (found : files.changedAmong parser settings paths = .ok changed) :
    (∀ path ∈ paths, ∃ outcome, files.settledAt parser settings path = .ok outcome) ∧
      ∀ path, path ∈ changed ↔
        path ∈ paths ∧ ∃ text, files.settledAt parser settings path = .ok (some text) := by
  induction paths generalizing changed with
  | nil =>
    cases found
    simp
  | cons path rest ih =>
    rw [changedAmong, bind_eq_ok_iff] at found
    obtain ⟨outcome, settled, found⟩ := found
    rw [bind_eq_ok_iff] at found
    obtain ⟨others, further, same⟩ := found
    obtain ⟨all, members⟩ := ih further
    refine ⟨List.forall_mem_cons.2 ⟨⟨outcome, settled⟩, all⟩, fun other => ?_⟩
    cases same
    cases outcome with
    | none =>
      -- The first file stays as it is.
      simp only [Option.isSome_none, Bool.false_eq_true, if_false, members, List.mem_cons]
      constructor
      · exact fun ⟨member, text⟩ => ⟨.inr member, text⟩
      · rintro ⟨rfl | member, text, written⟩
        · rw [settled] at written
          cases written
        · exact ⟨member, text, written⟩
    | some text =>
      -- The first file is one of those that change.
      simp only [Option.isSome_some, if_true, members, List.mem_cons]
      constructor
      · rintro (rfl | ⟨member, written⟩)
        · exact ⟨.inl rfl, text, settled⟩
        · exact ⟨.inr member, written⟩
      · rintro ⟨rfl | member, written⟩
        · exact .inl rfl
        · exact .inr ⟨member, written⟩

/-- Which files would come out changed depends on what comes of settling each of them. -/
theorem changedAmong_congr {before after : FileTree}
    (same : ∀ path ∈ paths, after.settledAt parser settings path = before.settledAt parser settings path) :
    after.changedAmong parser settings paths = before.changedAmong parser settings paths := by
  induction paths with
  | nil => rfl
  | cons path rest ih =>
    obtain ⟨first, further⟩ := List.forall_mem_cons.1 same
    rw [changedAmong, changedAmong, first, ih further]

end Several

end FileTree

/-- A file that has been read bears the digest of the text that is there. -/
theorem FileTree.hash_of_parseFile {parser : Parser} {parsing : ParsingSettings} {files : FileTree}
    {path : String} {file : ParsedFile} (parsed : parseFile parser parsing files path = .ok file) :
    ∃ source, files.readText path = .ok source ∧ source.hash = file.contentHash := by
  obtain ⟨source, readable, parsed⟩ := FileTree.parseFile_eq_ok_iff.1 parsed
  obtain ⟨language, tree, _, _, _, rfl⟩ := parseText_eq_ok_iff.1 parsed
  exact ⟨source, readable, rfl⟩

namespace Command

section Replace

variable {path expected : String} {world : World} {source : Text} {cause : IoError}

/-- A file that cannot be read again is not written. -/
theorem act_replace_of_unread (text : Text) (unread : world.files.readText path = .error cause) :
    act (replace path expected text) world = (.error (.io cause), world) := by
  rw [replace, act_bind_of_ok (act_files world), unread]
  rfl

/-- If nobody has edited the file, the second look at it makes no difference. -/
theorem act_replace_of_same (text : Text) (readable : world.files.readText path = .ok source)
    (same : source.hash = expected) :
    act (replace path expected text) world = act (write path text) world := by
  rw [replace, act_bind_of_ok (act_files world), readable]
  simp only [same, if_true]

/-- If the file has another text by now, this is told and the command fails. -/
theorem act_replace_of_other (text : Text) (readable : world.files.readText path = .ok source)
    (other : source.hash ≠ expected) :
    act (replace path expected text) world =
      (.error (.changedMeanwhile expected source.hash),
        told world [⟨.warn, s!"{path} changed on disk; not writing"⟩]) := by
  rw [replace, act_bind_of_ok (act_files world), readable]
  simp only [other, if_false]
  rw [act_bind_of_ok (act_say _ world)]
  rfl

/-- Whatever has become of the files since, a file is written only in place of a text with the digest that was
read before. -/
theorem files_replace (path expected : String) (text : Text) (world : World) :
    (act (replace path expected text) world).2.files = world.files ∨
      ∃ source, world.files.readText path = .ok source ∧ source.hash = expected ∧
        act (replace path expected text) world = act (write path text) world := by
  cases readable : world.files.readText path with
  | error cause =>
    rw [act_replace_of_unread text readable]
    exact .inl rfl
  | ok source =>
    by_cases same : source.hash = expected
    · exact .inr ⟨source, rfl, same, act_replace_of_same text readable same⟩
    · -- The file is left alone, and only the warning is new.
      rw [act_replace_of_other text readable same]
      exact .inl rfl

end Replace

section One

variable {parser : Parser} {settings : Settings} {path : String} {world : World} {file : ParsedFile}
  {failure : Failure} {text : Text}

/-- A file that cannot be read makes the command fail, with nothing changed. -/
theorem act_fixFile_of_unread (dryRun : Bool)
    (unread : parseFile parser settings.parsing world.files path = .error failure) :
    act (fixFile parser settings dryRun path) world = (.error failure, world) := by
  rw [fixFile, act_bind, act_parse, unread]

/-- A file that cannot be settled makes the command fail, and only what was said is new. -/
theorem act_fixFile_of_failed (dryRun : Bool)
    (parsed : parseFile parser settings.parsing world.files path = .ok file)
    (failed : (settle parser settings file).result = .error failure) :
    act (fixFile parser settings dryRun path) world =
      (.error failure, told world (settle parser settings file).notices) := by
  rw [fixFile, act_bind, act_parse, parsed]
  simp only [act_bind_of_ok (act_say _ world)]
  rw [act_bind, act_attempt, failed]

/-- A file that settling leaves alone is not written, and does not count as out of order. -/
theorem act_fixFile_of_alone (dryRun : Bool)
    (parsed : parseFile parser settings.parsing world.files path = .ok file)
    (alone : (settle parser settings file).result = .ok none) :
    act (fixFile parser settings dryRun path) world =
      (.ok false, told world (settle parser settings file).notices) := by
  rw [fixFile, act_bind, act_parse, parsed]
  simp only [act_bind_of_ok (act_say _ world)]
  rw [act_bind, act_attempt, alone]
  rfl

/-- A dry run tells that the file would change. -/
theorem act_fixFile_of_changed_dry
    (parsed : parseFile parser settings.parsing world.files path = .ok file)
    (changed : (settle parser settings file).result = .ok (some text)) :
    act (fixFile parser settings true path) world =
      (.ok true, { told world (settle parser settings file).notices with
        printed := world.printed ++ [("would reorder " ++ path).toList].flatMap (· ++ ['\n']) }) := by
  rw [fixFile, act_bind, act_parse, parsed]
  simp only [act_bind_of_ok (act_say _ world)]
  rw [act_bind, act_attempt, changed]
  rfl

/-- A real run writes the text to the file and tells so. -/
theorem act_fixFile_of_changed
    (parsed : parseFile parser settings.parsing world.files path = .ok file)
    (changed : (settle parser settings file).result = .ok (some text)) :
    act (fixFile parser settings false path) world =
      (.ok true, { told world ((settle parser settings file).notices ++ [⟨.info, s!"✅ Reordered {path}"⟩]) with
        files := world.files.fixedAt parser settings path }) := by
  have settled := FileTree.settledAt_eq_ok_iff.2 ⟨file, parsed, changed⟩
  obtain ⟨alone, _⟩ | ⟨_, location, content, same, _, located, found, _, fixed⟩ :=
    FileTree.fixedAt_cases parser settings world.files path
  · exact absurd settled (alone text)
  · -- The file is where it was read from, with the new text in place of the old one.
    rw [settled] at same
    cases same
    rw [fixFile, act_bind, act_parse, parsed]
    simp only [act_bind_of_ok (act_say _ world)]
    rw [act_bind, act_attempt, changed]
    simp only [Bool.false_eq_true, if_false]
    -- Nothing has touched the file since it was read, so that its digest is the same and it is written.
    obtain ⟨source, readable, same⟩ := FileTree.hash_of_parseFile parsed
    have checked : act (replace path file.contentHash text) (told world (settle parser settings file).notices) =
        act (write path text) (told world (settle parser settings file).notices) :=
      act_replace_of_same text readable same
    have wrote := checked.trans (act_write _ text located found)
    rw [act_bind_of_ok wrote, act_bind_of_ok (act_inform _ _), act_pure, fixed, ← told_told]
    rfl

end One

/-- What putting a file in order leaves behind: the text is written unless this is a dry run. -/
structure FixedFile (parser : Parser) (settings : Settings) (dryRun : Bool) (path : String)
    (before after : World) : Prop where
  /-- The files that are left behind. -/
  files_eq : after.files = if dryRun then before.files else before.files.fixedAt parser settings path
  /-- What was said before stays said. -/
  notices : ∃ said, after.notices = before.notices ++ said ∧
    ∀ file, parseFile parser settings.parsing before.files path = .ok file →
      (settle parser settings file).notices ⊆ said

/-- The result of putting a file in order is whether settling it gives a text, and that text is written. -/
theorem fixFile_spec (parser : Parser) (settings : Settings) (dryRun : Bool) (path : String) (world : World) :
    (act (fixFile parser settings dryRun path) world).1 =
        (world.files.settledAt parser settings path).map (·.isSome) ∧
      FixedFile parser settings dryRun path world (act (fixFile parser settings dryRun path) world).2 := by
  -- Reading may fail, settling may fail or give nothing, and only a text that comes out is written.
  cases parsed : parseFile parser settings.parsing world.files path with
  | error failure =>
    have settled : world.files.settledAt parser settings path = .error failure := by
      rw [FileTree.settledAt, parsed]
      rfl
    rw [act_fixFile_of_unread dryRun parsed]
    refine ⟨by rw [settled]; rfl, ?_, [], (List.append_nil _).symm, ?_⟩
    · simp only [FileTree.fixedAt, settled, ite_self]
    · rw [parsed]
      nofun
  | ok file =>
    have settled : world.files.settledAt parser settings path = (settle parser settings file).result := by
      rw [FileTree.settledAt, parsed]
      rfl
    -- What settling said is heard whichever way the file was read.
    have heard : ∀ said, (settle parser settings file).notices ⊆ said →
        ∀ read, parseFile parser settings.parsing world.files path = .ok read →
          (settle parser settings read).notices ⊆ said := by
      intro said subset read again
      rw [parsed] at again
      cases again
      exact subset
    cases result : (settle parser settings file).result with
    | error failure =>
      rw [act_fixFile_of_failed dryRun parsed result]
      refine ⟨by rw [settled, result]; rfl, ?_, _, rfl, heard _ (List.Subset.refl _)⟩
      simp only [FileTree.fixedAt, settled, result, ite_self, told]
    | ok outcome =>
      cases outcome with
      | none =>
        rw [act_fixFile_of_alone dryRun parsed result]
        refine ⟨by rw [settled, result]; rfl, ?_, _, rfl, heard _ (List.Subset.refl _)⟩
        simp only [FileTree.fixedAt, settled, result, ite_self, told]
      | some text =>
        cases dryRun with
        | true =>
          -- A dry run stops here, and a real one goes on to write the text.
          rw [act_fixFile_of_changed_dry parsed result]
          exact ⟨by rw [settled, result]; rfl, rfl, _, rfl, heard _ (List.Subset.refl _)⟩
        | false =>
          rw [act_fixFile_of_changed parsed result]
          exact ⟨by rw [settled, result]; rfl, rfl, _, rfl, heard _ (List.subset_append_left _ _)⟩

/-- Of several files the first one is put in order, and the others after it unless it fails. -/
theorem act_fixEach_cons (parser : Parser) (settings : Settings) (dryRun : Bool) (path : String)
    (rest : List String) (world : World) :
    ∃ reached, FixedFile parser settings dryRun path world reached ∧
      ((∃ failure, world.files.settledAt parser settings path = .error failure ∧
          act (fixEach parser settings dryRun (path :: rest)) world = (.error failure, reached)) ∨
        ∃ outcome, world.files.settledAt parser settings path = .ok outcome ∧
          act (fixEach parser settings dryRun (path :: rest)) world =
            ((act (fixEach parser settings dryRun rest) reached).1.map fun others =>
                if outcome.isSome then path :: others else others,
              (act (fixEach parser settings dryRun rest) reached).2)) := by
  obtain ⟨result, fixed⟩ := fixFile_spec parser settings dryRun path world
  refine ⟨(act (fixFile parser settings dryRun path) world).2, fixed, ?_⟩
  rw [fixEach, act_bind]
  cases acted : act (fixFile parser settings dryRun path) world with
  | mk given reached =>
    -- The first file decides whether the others are looked at.
    rw [acted] at result
    cases settled : world.files.settledAt parser settings path with
    | error failure =>
      -- What was done before the failure stays done.
      rw [settled] at result
      cases result
      exact .inl ⟨failure, rfl, rfl⟩
    | ok outcome =>
      rw [settled] at result
      cases result
      refine .inr ⟨outcome, rfl, ?_⟩
      simp only
      rw [act_bind]
      cases act (fixEach parser settings dryRun rest) reached with
      | mk result last =>
        cases result with
        | error failure => rfl
        | ok others => rfl

section Each

variable (parser : Parser) (settings : Settings)

/-- A dry run finds which files would change, and changes none. -/
theorem fixEach_dry (paths : List String) :
    ∀ world, (act (fixEach parser settings true paths) world).1 =
        world.files.changedAmong parser settings paths ∧
      (act (fixEach parser settings true paths) world).2.files = world.files := by
  induction paths with
  | nil =>
    intro world
    exact ⟨rfl, rfl⟩
  | cons path rest ih =>
    intro world
    -- The other files are looked at in the same state as the first one.
    obtain ⟨reached, fixed, ends⟩ := act_fixEach_cons parser settings true path rest world
    have files : reached.files = world.files := fixed.files_eq
    obtain ⟨result, stays⟩ := ih reached
    rw [files] at result stays
    rcases ends with ⟨failure, settled, acted⟩ | ⟨outcome, settled, acted⟩
    · rw [acted, FileTree.changedAmong_cons_of_error settled]
      exact ⟨rfl, files⟩
    · rw [acted, FileTree.changedAmong_cons_of_ok settled]
      exact ⟨by rw [result], stays⟩

/-- A real run over different files finds the same changes as a dry run. -/
theorem fixEach_real (paths : List String) :
    ∀ world : World, world.files.LeadApart paths →
      (act (fixEach parser settings false paths) world).1 =
        world.files.changedAmong parser settings paths := by
  induction paths with
  | nil =>
    intro world _
    rfl
  | cons path rest ih =>
    intro world apart
    obtain ⟨differ, apart⟩ := List.pairwise_cons.1 apart
    obtain ⟨reached, fixed, ends⟩ := act_fixEach_cons parser settings false path rest world
    -- A real run goes on with the files that the first one has left.
    have files : reached.files = world.files.fixedAt parser settings path := fixed.files_eq
    have first := FileTree.sameRules_fixedAt parser settings world.files path
    have result := ih reached (files ▸ FileTree.LeadApart.of_sameLayout apart first.toSameLayout)
    rcases ends with ⟨failure, settled, acted⟩ | ⟨outcome, settled, acted⟩
    · rw [acted, FileTree.changedAmong_cons_of_error settled]
    · -- The other files are settled as they were before the first one was written.
      have others : reached.files.changedAmong parser settings rest =
          world.files.changedAmong parser settings rest := by
        rw [files]
        apply FileTree.changedAmong_congr
        intro other member
        exact FileTree.settledAt_fixedAt_of_apart (differ other member)
      rw [acted, FileTree.changedAmong_cons_of_ok settled, result, others]

/--
What a real run over different files leaves behind.

It has rewritten all the files, or those before the first one that fails.
-/
theorem fixEach_rewritten (paths : List String) :
    ∀ world : World, world.files.LeadApart paths →
      ∃ done rest, paths = done ++ rest ∧
        world.files.Rewritten parser settings (act (fixEach parser settings false paths) world).2.files done ∧
        ((∃ changed, (act (fixEach parser settings false paths) world).1 = .ok changed) ∧ rest = [] ∨
          ∃ failure path later, (act (fixEach parser settings false paths) world).1 = .error failure ∧
            rest = path :: later ∧ world.files.settledAt parser settings path = .error failure) := by
  induction paths with
  | nil =>
    intro world _
    exact ⟨[], [], rfl, FileTree.rewritten_nil world.files, .inl ⟨⟨[], rfl⟩, rfl⟩⟩
  | cons path rest ih =>
    intro world apart
    obtain ⟨differ, apart⟩ := List.pairwise_cons.1 apart
    obtain ⟨reached, fixed, ends⟩ := act_fixEach_cons parser settings false path rest world
    have files : reached.files = world.files.fixedAt parser settings path := fixed.files_eq
    rcases ends with ⟨failure, settled, acted⟩ | ⟨outcome, settled, acted⟩
    · -- Nothing is written for the file that fails.
      have stays : world.files.fixedAt parser settings path = world.files := by
        rw [FileTree.fixedAt, settled]
      rw [acted]
      refine ⟨[], path :: rest, rfl, ?_, .inr ⟨failure, path, rest, rfl, rfl, settled⟩⟩
      rw [files, stays]
      exact FileTree.rewritten_nil world.files
    · have first := FileTree.sameRules_fixedAt parser settings world.files path
      obtain ⟨done, later, split, rewritten, ends⟩ :=
        ih reached (files ▸ FileTree.LeadApart.of_sameLayout apart first.toSameLayout)
      rw [files] at rewritten ends
      rw [acted]
      refine ⟨path :: done, later, by rw [split, List.cons_append], ?_, ?_⟩
      · apply rewritten.cons
        intro other member
        exact differ other (split ▸ List.mem_append_left _ member)
      · rcases ends with ⟨⟨others, went⟩, none_left⟩ | ⟨failure, failing, after, went, left_over, failed⟩
        · exact .inl ⟨⟨_, by rw [went]; rfl⟩, none_left⟩
        · refine .inr ⟨failure, failing, after, by rw [went]; rfl, left_over, ?_⟩
          -- The file that fails is not the one that has been written.
          rw [← failed, FileTree.settledAt_fixedAt_of_apart]
          exact differ failing (split ▸ List.mem_append_right _ (left_over ▸ List.mem_cons_self))

end Each

section Whole

variable {settings : Settings} {paths found : List String} {world : World}

/-- A run that does not find its files fails, with nothing changed. -/
theorem act_fix_of_error (parser : Parser) (dryRun : Bool) {failure : Failure}
    (failed : collected settings paths world.files = .error failure) :
    act (fix parser settings paths dryRun) world = (.error failure, world) := by
  rw [fix, act_bind, act_sources, failed]

/-- The world in which a run starts to put files in order. -/
def ready (dryRun : Bool) (world : World) : World :=
  if dryRun then told world [⟨.info, "📋 Dry run mode - showing what would be reordered"⟩] else world

/-- A real run starts with nothing said. -/
@[simp] theorem ready_false (world : World) : ready false world = world := rfl

/-- A run goes on as from the world in which it starts to put files in order. -/
theorem act_ready {α : Type} (dryRun : Bool) (next : Command α) (world : World) :
    act (if dryRun then do
        inform "📋 Dry run mode - showing what would be reordered"
        next
      else next) world = act next (ready dryRun world) := by
  cases dryRun with
  | false => rfl
  | true => rfl

/-- A run over the files that are found puts each of them in order, with something said before and after. -/
theorem act_fix (parser : Parser) (dryRun : Bool) (collects : collected settings paths world.files = .ok found) :
    act (fix parser settings paths dryRun) world =
      match act (fixEach parser settings dryRun found) (ready dryRun world) with
      | (.ok changed, reached) =>
        (.ok ⟨found.length, changed⟩,
          told reached [⟨.info, s!"🎉 {changed.length} of {found.length} files reordered"⟩])
      | (.error failure, reached) => (.error failure, reached) := by
  rw [fix, act_bind, act_sources, collects]
  simp only [act_ready]
  rw [act_bind]
  -- A failure in between ends the run before anything is said about it.
  cases act (fixEach parser settings dryRun found) (ready dryRun world) with
  | mk result reached =>
    cases result with
    | error failure => rfl
    | ok changed => rfl

/-- Announcing a dry run does not change the files. -/
@[simp] theorem files_ready (dryRun : Bool) (world : World) : (ready dryRun world).files = world.files := by
  cases dryRun with
  | false => rfl
  | true => rfl

/-- A run gives the files that putting each in order finds changed, and leaves behind what that does. -/
theorem fix_spec (parser : Parser) (dryRun : Bool) (collects : collected settings paths world.files = .ok found) :
    (act (fix parser settings paths dryRun) world).1 =
        (act (fixEach parser settings dryRun found) (ready dryRun world)).1.map (FixSummary.mk found.length) ∧
      (act (fix parser settings paths dryRun) world).2.files =
        (act (fixEach parser settings dryRun found) (ready dryRun world)).2.files ∧
      ∃ more, (act (fix parser settings paths dryRun) world).2.notices =
        (act (fixEach parser settings dryRun found) (ready dryRun world)).2.notices ++ more := by
  rw [act_fix parser dryRun collects]
  -- The last thing said is the only difference, and a failed run does not say it.
  cases act (fixEach parser settings dryRun found) (ready dryRun world) with
  | mk result reached =>
    cases result with
    | error failure => exact ⟨rfl, rfl, [], (List.append_nil _).symm⟩
    | ok changed => exact ⟨rfl, rfl, _, rfl⟩

/-- A dry run gives the files that would come out changed. -/
theorem fix_dry (parser : Parser) (collects : collected settings paths world.files = .ok found) :
    (act (fix parser settings paths true) world).1 =
        (world.files.changedAmong parser settings found).map (FixSummary.mk found.length) ∧
      (act (fix parser settings paths true) world).2.files = world.files := by
  obtain ⟨result, left, _⟩ := fix_spec parser true collects
  obtain ⟨changed, untouched⟩ := fixEach_dry parser settings found (ready true world)
  rw [result, left, changed, untouched, files_ready]
  exact ⟨rfl, rfl⟩

section Apart

variable {parser : Parser} (collects : collected settings paths world.files = .ok found)
  (apart : world.files.LeadApart found)
include collects apart

/-- So does a real run over different files. -/
theorem fix_real :
    (act (fix parser settings paths false) world).1 =
      (world.files.changedAmong parser settings found).map (FixSummary.mk found.length) := by
  obtain ⟨result, _, _⟩ := fix_spec parser false collects
  rw [result, ready_false, fixEach_real parser settings found world apart]

/-- A real run that comes to its end has written the settled texts, and nothing else. -/
theorem fix_real_ok {summary : FixSummary}
    (gave : (act (fix parser settings paths false) world).1 = .ok summary) :
    (∀ path ∈ summary.filesChanged, ∃ text,
        world.files.settledAt parser settings path = .ok (some text) ∧
        (act (fix parser settings paths false) world).2.files.readText path = .ok text) ∧
      ∀ location, (∀ path ∈ summary.filesChanged, world.files.locate path ≠ .ok location) →
        (act (fix parser settings paths false) world).2.files.get? location = world.files.get? location := by
  obtain ⟨result, left, _⟩ := fix_spec parser false collects
  obtain ⟨done, rest, split, rewritten, ends⟩ := fixEach_rewritten parser settings found world apart
  rw [result, ready_false] at gave
  rw [left, ready_false]
  obtain ⟨⟨changed, went⟩, none_left⟩ | ⟨failure, _, _, went, _⟩ := ends
  · -- All the files have been put in order, and those that changed are listed.
    rw [went] at gave
    cases gave
    rw [fixEach_real parser settings found world apart] at went
    obtain ⟨_, members⟩ := FileTree.changedAmong_eq_ok went
    rw [none_left, List.append_nil] at split
    subst split
    refine ⟨fun path member => ?_, fun location untouched => rewritten.kept location ?_⟩
    · obtain ⟨isFound, text, settled⟩ := (members path).1 member
      exact ⟨text, settled, rewritten.written path isFound text settled⟩
    · intro path isFound located text settled
      exact untouched path ((members path).2 ⟨isFound, text, settled⟩) located
  · rw [went] at gave
    cases gave

/-- A real run that fails at a file has written the settled texts of those before it, and nothing else. -/
theorem fix_real_error {failure : Failure}
    (gave : (act (fix parser settings paths false) world).1 = .error failure) :
    ∃ done path rest, found = done ++ path :: rest ∧
      world.files.settledAt parser settings path = .error failure ∧
      world.files.Rewritten parser settings (act (fix parser settings paths false) world).2.files done := by
  obtain ⟨result, left, _⟩ := fix_spec parser false collects
  obtain ⟨done, rest, split, rewritten, ends⟩ := fixEach_rewritten parser settings found world apart
  rw [result, ready_false] at gave
  rw [left, ready_false]
  -- A run that went through has not failed; one that stopped did so at the first file that failed.
  obtain ⟨⟨changed, went⟩, _⟩ | ⟨_, path, later, went, begins, failed⟩ := ends
  · rw [went] at gave
    cases gave
  · rw [went] at gave
    cases gave
    exact ⟨done, path, later, begins ▸ split, failed, rewritten⟩

end Apart

/--
A dry run tells what a real run does, if the files that are found are different ones.

Both give the same summary or fail alike, and the dry run changes nothing. A real run that comes to its end
has written the settled text to each file in its summary, and has changed nothing else. A real run that fails
has failed to find the files, and changed nothing, or it has failed at one of them: then each file before that
one has its settled text if there is one, nothing is changed elsewhere, and that file and those after it are as
they were.
-/
theorem dryRun_predicts_fix (parser : Parser) (settings : Settings) (paths : List String) (world : World)
    (apart : ∀ found, collected settings paths world.files = .ok found → world.files.LeadApart found) :
    let dry := act (fix parser settings paths true) world
    let real := act (fix parser settings paths false) world
    dry.1 = real.1 ∧ dry.2.files = world.files ∧
    (∀ summary, real.1 = .ok summary →
      (∀ path ∈ summary.filesChanged, ∃ text,
        world.files.settledAt parser settings path = .ok (some text) ∧
        real.2.files.readText path = .ok text) ∧
      ∀ location, (∀ path ∈ summary.filesChanged, world.files.locate path ≠ .ok location) →
        real.2.files.get? location = world.files.get? location) ∧
    ∀ failure, real.1 = .error failure →
      collected settings paths world.files = .error failure ∧ real.2.files = world.files ∨
      ∃ done path rest, collected settings paths world.files = .ok (done ++ path :: rest) ∧
        world.files.settledAt parser settings path = .error failure ∧
        (∀ earlier ∈ done, ∀ text, world.files.settledAt parser settings earlier = .ok (some text) →
          real.2.files.readText earlier = .ok text) ∧
        (∀ location, (∀ earlier ∈ done, world.files.locate earlier ≠ .ok location) →
          real.2.files.get? location = world.files.get? location) ∧
        ∀ later ∈ path :: rest, real.2.files.readText later = world.files.readText later := by
  intro dry real
  cases collects : collected settings paths world.files with
  | error failure =>
    have dryFails : dry = (.error failure, world) := act_fix_of_error parser true collects
    have realFails : real = (.error failure, world) := act_fix_of_error parser false collects
    rw [dryFails, realFails]
    refine ⟨rfl, rfl, nofun, ?_⟩
    rintro _ ⟨⟩
    exact .inl ⟨rfl, rfl⟩
  | ok found =>
    have apart := apart found collects
    obtain ⟨dryResult, untouched⟩ := fix_dry parser collects
    refine ⟨dryResult.trans (fix_real collects apart).symm, untouched,
      fun summary gave => fix_real_ok collects apart gave, fun failure gave => .inr ?_⟩
    -- A real run that fails has written the files before the one that failed.
    obtain ⟨done, path, rest, split, failed, rewritten⟩ := fix_real_error collects apart gave
    subst split
    refine ⟨done, path, rest, rfl, failed, rewritten.written, ?_, ?_⟩
    · intro location elsewhere
      exact rewritten.kept location fun earlier member same => absurd same (elsewhere earlier member)
    · -- No file before the one that failed leads to any of the others.
      intro later member
      exact rewritten.readText fun earlier isDone location =>
        (List.pairwise_append.1 apart).2.2 earlier isDone later member location

end Whole

end Command

namespace Sample

/-- Two files, the first one with the callee first and the other with the caller first. -/
def world : World :=
  { files := { entries := [(["a.js"], .file (String.ofList source).toUTF8),
      (["b.js"], .file (String.ofList sorted).toUTF8)] } }

/-- Both files are found. -/
theorem collected_world : Command.collected {} ["a.js", "b.js"] world.files = .ok ["a.js", "b.js"] := by
  have first : collectAt world.files {} "a.js" = .ok ["a.js"] := by rfl
  have second : collectAt world.files {} "b.js" = .ok ["b.js"] := by rfl
  -- Sorting is by merging, which is not computed here: the list is in order already.
  have inOrder : ["a.js", "b.js"].mergeSort (fun first second =>
      Path.noLater (Path.components first) (Path.components second)) = ["a.js", "b.js"] := by
    apply List.mergeSort_of_pairwise
    decide
  have distinct : Path.sortDistinct ["a.js", "b.js"] = ["a.js", "b.js"] := by
    rw [Path.sortDistinct, inOrder]
    decide
  simp only [Command.collected, collect, List.isEmpty_cons, Bool.false_eq_true, if_false, List.mapM_cons,
    List.mapM_nil, first, second]
  exact congrArg Except.ok distinct

/-- The two files of the sample are different ones. -/
theorem leadApart_world : world.files.LeadApart ["a.js", "b.js"] := by
  have first : world.files.locate "a.js" = .ok ["a.js"] := by rfl
  have second : world.files.locate "b.js" = .ok ["b.js"] := by rfl
  simp [FileTree.LeadApart, first, second]

/-- The same two files, both with the caller first. -/
def sortedFiles : FileTree :=
  { entries := [(["a.js"], .file (String.ofList sorted).toUTF8), (["b.js"], .file (String.ofList sorted).toUTF8)] }

/-- The first file of the sample can be read. -/
theorem parseFile_world : parseFile parser {} world.files "a.js" = .ok file := by
  rw [FileTree.parseFile_eq_ok_iff]
  exact ⟨source, FileTree.readText_eq_ok_iff.2 ⟨["a.js"], rfl, rfl⟩, rfl⟩

/-- The second file can be read wherever its text is in order. -/
theorem parseFile_second {files : FileTree} (readable : files.readText "b.js" = .ok sorted) :
    parseFile parser {} files "b.js" = .ok (sortedFile.renamed "b.js") :=
  FileTree.parseFile_eq_ok_iff.2 ⟨sorted, readable, rfl⟩

/-- Putting the first file in order gives the files that are both in order. -/
theorem fixedAt_world : world.files.fixedAt parser {} "a.js" = sortedFiles := by
  have settled : world.files.settledAt parser {} "a.js" = .ok (some sorted) :=
    FileTree.settledAt_eq_ok_iff.2 ⟨file, parseFile_world, by rw [settle_file]⟩
  have located : world.files.locate "a.js" = .ok ["a.js"] := by rfl
  have found : world.files.get? ["a.js"] = some (.file (String.ofList source).toUTF8) := by rfl
  -- The path leads to a file, so the text is written over its bytes.
  simp only [FileTree.fixedAt, settled, FileTree.writeText_of_file sorted located found]
  rfl

/-- A real run rewrites the first file and leaves the second one alone. -/
theorem act_fix_world : Command.act (Command.fix parser {} ["a.js", "b.js"] false) world =
    (.ok ⟨2, ["a.js"]⟩, { files := sortedFiles, notices :=
      [⟨.info, "✅ Reordered a.js"⟩, ⟨.info, "🎉 1 of 2 files reordered"⟩] }) := by
  -- The first file is rewritten, which leaves the second one to be read in the world between.
  let between : World := { files := sortedFiles, notices := [⟨.info, "✅ Reordered a.js"⟩] }
  have first : Command.act (Command.fixFile parser {} false "a.js") world = (.ok true, between) := by
    rw [Command.act_fixFile_of_changed parseFile_world (by rw [settle_file]), settle_file, fixedAt_world]
    rfl
  have alone : (settle parser {} (sortedFile.renamed "b.js")).result = .ok none := by
    rw [settle_sortedFile]
  have second : Command.act (Command.fixFile parser {} false "b.js") between = (.ok false, between) := by
    have readable : between.files.readText "b.js" = .ok sorted :=
      FileTree.readText_eq_ok_iff.2 ⟨["b.js"], rfl, rfl⟩
    rw [Command.act_fixFile_of_alone false (parseFile_second readable) alone, settle_sortedFile]
    rfl
  have each : Command.act (Command.fixEach parser {} false ["a.js", "b.js"]) world = (.ok ["a.js"], between) := by
    rw [Command.fixEach, Command.act_bind_of_ok first, Command.fixEach, Command.act_bind,
      Command.act_bind_of_ok second]
    rfl
  rw [Command.act_fix parser false collected_world, Command.ready_false, each]
  rfl

end Sample

namespace Command

/-- A dry run over the sample tells that the first file changes, and a real run changes that file only. -/
theorem dryRun_predicts_fix_sample :
    let dry := act (fix Sample.parser {} ["a.js", "b.js"] true) Sample.world
    let real := act (fix Sample.parser {} ["a.js", "b.js"] false) Sample.world
    Sample.world.files.LeadApart ["a.js", "b.js"] ∧ dry.1 = .ok ⟨2, ["a.js"]⟩ ∧
      dry.2.files = Sample.world.files ∧ real.2.files.get? ["b.js"] = Sample.world.files.get? ["b.js"] := by
  intro dry real
  obtain ⟨same, untouched, ends, _⟩ :=
    dryRun_predicts_fix Sample.parser {} ["a.js", "b.js"] Sample.world fun found collects => by
      rw [Sample.collected_world] at collects
      cases collects
      exact Sample.leadApart_world
  have given : real.1 = .ok ⟨2, ["a.js"]⟩ := by
    rw [show real = _ from Sample.act_fix_world]
  -- The second file is none of those that are named as changed.
  refine ⟨Sample.leadApart_world, same.trans given, untouched, (ends _ given).2 ["b.js"] ?_⟩
  intro path changed
  rw [List.mem_singleton.1 changed, show Sample.world.files.locate "a.js" = .ok ["a.js"] from rfl]
  simp

end Command

end CallersFirst
