import CallersFirst.Command.Check
import CallersFirst.Proofs.Analysis.LineComments
import CallersFirst.Proofs.Command.Fix
import CallersFirst.Proofs.Reordering

/-! What is reported as out of order, against what is put in order. -/

namespace CallersFirst

/-- A round over a tree that can be relied on changes the text exactly if a scope asks for a splice. -/
theorem newText_reorder_eq_none_iff {source : Text} {tree : SyntaxTree} (options : OrderingSettings)
    (wellFormed : tree.root.IsWellFormed source) (filled : tree.root.PartsFilled) :
    (reorder source options tree).newText = none ↔
      ∀ analysis ∈ analyzeTree source options tree, analysis.splice? = none := by
  obtain ⟨_, backToFront, fits⟩ := accepted_spec_of_analyzeTree options wellFormed filled
  -- The accepted splices can be made, and there are some as soon as there is any splice.
  simp only [reorder, Splice.applyAll?_eq_madeAtOnce backToFront fits]
  rw [← List.filterMap_eq_nil_iff, ← Splice.accepted_nil_eq_nil_iff]
  by_cases empty : Splice.accepted [] ((analyzeTree source options tree).filterMap (·.splice?)) = []
  · simp [empty]
  · simp [empty]

namespace ParsedFile

/-- The report of a file, if it can be analysed and one of its scopes is out of order. -/
def report? (settings : Settings) (file : ParsedFile) : Option FileReport :=
  let scopes := ((analyzeTree file.source settings.ordering file.tree).map (·.report file.source)).filter
    (·.needsReorder)
  if file.tree.hasErrors ∨ scopes = [] then none else some ⟨file.path, scopes⟩

variable {parser : Parser} {settings : Settings} {file : ParsedFile}

/-- A report is about the file that it was made for. -/
theorem path_of_report? {report : FileReport} (reported : file.report? settings = some report) :
    report.path = file.path := by
  simp only [report?] at reported
  split at reported
  · cases reported
  · cases reported
    rfl

/-- A file is reported if it is clean and a round changes it. -/
theorem isSome_report?_iff (sound : parser.IsSound) (read : file.IsReadBy parser) :
    (file.report? settings).isSome ↔ file.tree.hasErrors = false ∧ ¬ file.IsSteady settings := by
  cases broken : file.tree.hasErrors with
  | true => simp [report?, broken]
  | false =>
    obtain ⟨grammar, read⟩ := read
    obtain ⟨wellFormed, filled⟩ := sound grammar _ _ read broken
    -- The file is steady if none of its scopes asks for a splice.
    have steady : file.IsSteady settings ↔
        ((analyzeTree file.source settings.ordering file.tree).map (·.report file.source)).filter
          (·.needsReorder) = [] := by
      rw [IsSteady, newText_reorder_eq_none_iff _ wellFormed filled, List.filter_eq_nil_iff]
      simp [ScopeReport.needsReorder, ScopeAnalysis.report]
    rw [steady]
    simp [report?, broken]

end ParsedFile

namespace FileTree

variable {parser : Parser} {settings : Settings} {files : FileTree} {path : String}

/-- A file that has been read has the tree that the parser gives for its text. -/
theorem isReadBy_of_parseFile {parsing : ParsingSettings} {file : ParsedFile}
    (parsed : parseFile parser parsing files path = .ok file) : file.IsReadBy parser := by
  obtain ⟨source, _, parsed⟩ := parseFile_eq_ok_iff.1 parsed
  exact (isReadBy_of_parseText parsed).2

/-- A file whose settling does not fail comes out changed if a round changes it and nothing breaks. -/
theorem settledAt_changed_iff {outcome : Option Text} (some_passes : 1 ≤ settings.ordering.maxPasses)
    (settled : files.settledAt parser settings path = .ok outcome) :
    (∃ text, files.settledAt parser settings path = .ok (some text)) ↔
      ∃ file, parseFile parser settings.parsing files path = .ok file ∧ ¬ file.IsSteady settings ∧
        ¬ file.Breaks parser settings settings.ordering.maxPasses := by
  obtain ⟨file, parsed, result⟩ := settledAt_eq_ok_iff.1 settled
  have rounds : settings.ordering.maxPasses ≠ 0 := by omega
  -- Nothing comes out only of a file that is steady or breaks, as there is a round to be made.
  have alone : outcome = none ↔
      file.IsSteady settings ∨ file.Breaks parser settings settings.ordering.maxPasses := by
    have spec : (settle parser settings file).result = .ok none ↔ _ := settle_eq_none_iff
    rw [result, Except.ok.injEq, or_iff_right rounds] at spec
    exact spec
  rw [settled]
  simp only [parsed, Except.ok.injEq, exists_eq_left', ← not_or, ← alone, ← Option.ne_none_iff_exists']

/-- The reports of those files that are out of order, the first one that cannot be read ending the search. -/
def reportsAmong (parser : Parser) (settings : Settings) (files : FileTree) :
    List String → Except Failure (List FileReport)
  | [] => .ok []
  | path :: rest => do
    let file ← parseFile parser settings.parsing files path
    let others ← reportsAmong parser settings files rest
    return (file.report? settings).toList ++ others

/-- The report on a file that can be read, if there is one, stands before those on the others. -/
theorem reportsAmong_cons_of_ok {file : ParsedFile} {rest : List String}
    (parsed : parseFile parser settings.parsing files path = .ok file) :
    files.reportsAmong parser settings (path :: rest) =
      (files.reportsAmong parser settings rest).map ((file.report? settings).toList ++ ·) := by
  rw [reportsAmong, parsed]
  cases files.reportsAmong parser settings rest with
  | error failure => rfl
  | ok others => rfl

/-- The files that are reported are those among the given ones that have a report. -/
theorem reportsAmong_eq_ok {paths : List String} {reports : List FileReport}
    (found : files.reportsAmong parser settings paths = .ok reports) :
    ∀ path, path ∈ reports.map (·.path) ↔ path ∈ paths ∧
      ∃ file, parseFile parser settings.parsing files path = .ok file ∧ (file.report? settings).isSome := by
  induction paths generalizing reports with
  | nil =>
    cases found
    simp
  | cons first rest ih =>
    intro path
    rw [reportsAmong, bind_eq_ok_iff] at found
    obtain ⟨file, parsed, found⟩ := found
    rw [bind_eq_ok_iff] at found
    obtain ⟨others, further, same⟩ := found
    cases same
    -- The report of the first file bears its path.
    have own : path ∈ (file.report? settings).toList.map (·.path) ↔
        path = first ∧ (file.report? settings).isSome := by
      cases reported : file.report? settings with
      | none => simp
      | some report =>
        have named : report.path = first :=
          (ParsedFile.path_of_report? reported).trans (path_of_parseFile parsed)
        simp [named]
    rw [List.map_append, List.mem_append, own, ih further, List.mem_cons]
    constructor
    · rintro (⟨rfl, reported⟩ | ⟨member, found⟩)
      · exact ⟨.inl rfl, file, parsed, reported⟩
      · exact ⟨.inr member, found⟩
    · rintro ⟨rfl | member, found⟩
      -- A report on a path that comes again is the one that the first file has.
      · obtain ⟨again, same, reported⟩ := found
        rw [parsed] at same
        cases same
        exact .inl ⟨rfl, reported⟩
      · exact .inr ⟨member, found⟩

/-- Of files that are all read and settled, those come out changed that are reported and do not break. -/
theorem mem_changedAmong_iff {paths changed : List String} {reports : List FileReport} (sound : parser.IsSound)
    (some_passes : 1 ≤ settings.ordering.maxPasses)
    (reported : files.reportsAmong parser settings paths = .ok reports)
    (among : files.changedAmong parser settings paths = .ok changed) (path : String) :
    path ∈ changed ↔ path ∈ reports.map (·.path) ∧
      ∃ file, parseFile parser settings.parsing files path = .ok file ∧
        ¬ file.Breaks parser settings settings.ordering.maxPasses := by
  obtain ⟨all, members⟩ := changedAmong_eq_ok among
  rw [members, reportsAmong_eq_ok reported, and_assoc]
  refine and_congr_right fun member => ?_
  obtain ⟨outcome, settled⟩ := all path member
  rw [settledAt_changed_iff some_passes settled]
  constructor
  · intro ⟨file, parsed, unsteady, unbroken⟩
    -- A file that does not break has no errors to begin with.
    have clean : file.tree.hasErrors = false := by
      cases broken : file.tree.hasErrors with
      | false => rfl
      | true => exact absurd (ParsedFile.breaks_of_errors broken) unbroken
    have read := isReadBy_of_parseFile parsed
    exact ⟨⟨file, parsed, (ParsedFile.isSome_report?_iff sound read).2 ⟨clean, unsteady⟩⟩,
      file, parsed, unbroken⟩
  · intro ⟨⟨file, parsed, reported⟩, again, same, unbroken⟩
    rw [parsed] at same
    cases same
    have read := isReadBy_of_parseFile parsed
    exact ⟨file, parsed, ((ParsedFile.isSome_report?_iff sound read).1 reported).2, unbroken⟩

end FileTree

namespace Command

section Check

variable (parser : Parser) (settings : Settings)

/-- Checking a file reports it if it is out of order, and changes no files. -/
theorem checkFile_spec (path : String) (world : World) :
    (act (checkFile parser settings path) world).1 =
        (parseFile parser settings.parsing world.files path).map (·.report? settings) ∧
      (act (checkFile parser settings path) world).2.files = world.files := by
  rw [checkFile, act_bind, act_parse]
  cases parsed : parseFile parser settings.parsing world.files path with
  | error failure => exact ⟨rfl, rfl⟩
  | ok file =>
    -- The report is made out for the path that was asked for, which is that of the file.
    have named := FileTree.path_of_parseFile parsed
    simp only [Except.map, ParsedFile.report?, named]
    cases broken : file.tree.hasErrors with
    | true => exact ⟨rfl, rfl⟩
    | false =>
      simp only [Bool.false_eq_true, if_false, false_or, List.isEmpty_iff]
      exact ⟨rfl, rfl⟩

/-- Checking files reports those that are out of order, and changes none. -/
theorem checkEach_spec (paths : List String) :
    ∀ world, (act (checkEach parser settings paths) world).1 =
        world.files.reportsAmong parser settings paths ∧
      (act (checkEach parser settings paths) world).2.files = world.files := by
  induction paths with
  | nil =>
    intro world
    exact ⟨rfl, rfl⟩
  | cons path rest ih =>
    intro world
    obtain ⟨result, files⟩ := checkFile_spec parser settings path world
    rw [checkEach, act_bind]
    cases acted : act (checkFile parser settings path) world with
    | mk given reached =>
      -- The first file is read or not, and no file is changed by that.
      rw [acted] at result files
      cases parsed : parseFile parser settings.parsing world.files path with
      | error failure =>
        rw [parsed] at result
        cases result
        rw [FileTree.reportsAmong, parsed]
        exact ⟨rfl, files⟩
      | ok file =>
        rw [parsed] at result
        cases result
        -- The files are as they were, so that the others are reported as they would be by themselves.
        obtain ⟨others, stays⟩ := ih reached
        simp only at files others stays ⊢
        rw [files] at others stays
        rw [FileTree.reportsAmong_cons_of_ok parsed, act_bind, ← others, ← stays]
        cases act (checkEach parser settings rest) reached with
        | mk given last =>
          cases given with
          | error failure => exact ⟨rfl, rfl⟩
          | ok others => exact ⟨rfl, rfl⟩

/-- A check reports those of the files that are found which are out of order, and changes none. -/
theorem checkFiles_spec {paths found : List String} {world : World}
    (collects : collected settings paths world.files = .ok found) :
    (act (checkFiles parser settings paths) world).1 = world.files.reportsAmong parser settings found ∧
      (act (checkFiles parser settings paths) world).2.files = world.files := by
  rw [checkFiles, act_bind, act_sources, collects]
  simp only [act_bind_of_ok (act_inform _ world)]
  exact checkEach_spec parser settings found _

end Check

/--
A dry run lists the files that a check reports, except those whose new text would break.

A check reports a file as soon as a scope asks for a splice. The file is left alone all the same if one of the
texts that its rounds reach has syntax errors.
-/
theorem fix_changes_reported {parser : Parser} {settings : Settings} {paths : List String} {world : World}
    {reports : List FileReport} {summary : FixSummary} (sound : parser.IsSound)
    (some_passes : 1 ≤ settings.ordering.maxPasses)
    (checked : (act (checkFiles parser settings paths) world).1 = .ok reports)
    (fixed : (act (fix parser settings paths true) world).1 = .ok summary) :
    ∀ path, path ∈ summary.filesChanged ↔ path ∈ reports.map (·.path) ∧
      ∃ file, parseFile parser settings.parsing world.files path = .ok file ∧
        ¬ file.Breaks parser settings settings.ordering.maxPasses := by
  intro path
  -- Both look at the same files.
  cases collects : collected settings paths world.files with
  | error failure =>
    rw [act_fix_of_error parser true collects] at fixed
    cases fixed
  | ok found =>
    rw [(checkFiles_spec parser settings collects).1] at checked
    rw [(fix_dry parser collects).1] at fixed
    cases among : world.files.changedAmong parser settings found with
    | error failure =>
      rw [among] at fixed
      cases fixed
    | ok changed =>
      rw [among] at fixed
      cases fixed
      exact FileTree.mem_changedAmong_iff sound some_passes checked among path

/-- The file of the sample with the callee first is reported, and a dry run lists it. -/
theorem fix_changes_reported_sample :
    ∃ reports, (act (checkFiles Sample.parser {} ["a.js", "b.js"]) Sample.world).1 = .ok reports ∧
      "a.js" ∈ reports.map (·.path) ∧
      (act (fix Sample.parser {} ["a.js", "b.js"] true) Sample.world).1 = .ok ⟨2, ["a.js"]⟩ := by
  have collects := Sample.collected_world
  have second := Sample.parseFile_second (FileTree.readText_eq_ok_iff.2 ⟨["b.js"], rfl, rfl⟩ :
    Sample.world.files.readText "b.js" = _)
  have checked := (checkFiles_spec Sample.parser {} collects).1
  rw [FileTree.reportsAmong_cons_of_ok Sample.parseFile_world, FileTree.reportsAmong_cons_of_ok second] at checked
  -- A dry run gives what a real run gives.
  have fixed : (act (fix Sample.parser {} ["a.js", "b.js"] true) Sample.world).1 = .ok ⟨2, ["a.js"]⟩ := by
    rw [(fix_dry Sample.parser collects).1, ← fix_real collects Sample.leadApart_world, Sample.act_fix_world]
  have listed := fix_changes_reported Sample.parser_isSound (by decide) checked fixed "a.js"
  exact ⟨_, checked, (listed.1 (List.mem_singleton.2 rfl)).1, fixed⟩

end Command

/-! A constant without a semicolon and a function that calls it, with one more call behind the function. -/

namespace Sample

/-- The text with a constant that only the end of its line ends. -/
def looseSource : Text :=
  "const b = () => 1\nfunction a() \x7b b() \x7d foo()\n".toList

/-- The caller, with blanks in its body. -/
def looseCaller : Node :=
  ⟨"function_declaration", true, ⟨18, 38⟩, none,
    [token "function" 18 26, identifier .name 27, parentheses "formal_parameters" 28, body 31 38 [call 33]]⟩

/-- The statement on the line of the caller. -/
def looseCall : Node :=
  ⟨"expression_statement", true, ⟨39, 44⟩, none, [⟨"call_expression", true, ⟨39, 44⟩, none,
    [⟨"identifier", true, ⟨39, 42⟩, some .function, []⟩, parentheses "arguments" 42]⟩]⟩

/-- The callee, without a semicolon. -/
def looseCallee : Node :=
  binding 0 17 (arrow 10 17 one) []

/-- The tree of the text. -/
def looseTree : SyntaxTree :=
  ⟨⟨"program", true, ⟨0, 45⟩, none, [looseCallee, looseCaller, looseCall]⟩, false⟩

/-- The only scope of the tree. -/
def looseScope : Scope :=
  ⟨.program, looseTree.root, none⟩

/-- The splice that puts the caller first. -/
def looseSplice : Splice :=
  ⟨⟨0, 38⟩, "function a() \x7b b() \x7d\n\nconst b = () => 1".toList⟩

/-- The text with the caller first, in which the constant runs into the call behind it. -/
def brokenText : Text :=
  "function a() \x7b b() \x7d\n\nconst b = () => 1 foo()\n".toList

/-- The tree of that text, of which only the errors matter. -/
def brokenTree : SyntaxTree :=
  ⟨⟨"program", true, ⟨0, 46⟩, none, []⟩, true⟩

/-- A parser that can read the two texts. -/
def looseParser : Parser := fun _ text =>
  if text = looseSource then some looseTree else if text = brokenText then some brokenTree else none

/-- The tree of the sample is well-formed, and its parts are not empty. -/
theorem isWellFormed_looseTree : looseTree.root.IsWellFormed looseSource ∧ looseTree.root.PartsFilled := by
  decide

/-- The parser of the sample gives well-formed trees only. -/
theorem looseParser_isSound : looseParser.IsSound := by
  intro grammar text tree read clean
  unfold looseParser at read
  split at read
  · rename_i same
    cases read
    rw [same]
    exact isWellFormed_looseTree
  · split at read
    · -- The broken text has errors.
      cases read
      cases clean
    · cases read

/-- The units of the sample are the constant and the function that calls it. -/
theorem resolvedUnits_looseScope : looseScope.resolvedUnits looseSource =
    [⟨"b", .expression, ⟨0, 17⟩, [], []⟩, ⟨"a", .declaration, ⟨18, 38⟩, [], ["b"]⟩] := by
  -- The constant ends without a semicolon, so its statement stops with the arrow's body.
  have calleeStop : looseCallee.statementStop looseSource = 17 := by
    rw [Node.statementStop]
    decide
  have first : looseCallee.definition? looseSource .program =
      some ⟨"b", .expression, ⟨0, 17⟩, some one⟩ := by
    rw [Node.definition?, if_neg (by decide), Node.statementDefinition?]
    show looseCallee.binding? looseSource = _
    simp only [Node.binding?, calleeStop]
    rfl
  have second : looseCaller.definition? looseSource .program =
      some ⟨"a", .declaration, ⟨18, 38⟩, some (body 31 38 [call 33])⟩ := by
    rw [Node.definition?, if_neg (by decide), Node.statementDefinition?]
    rfl
  have third : looseCall.definition? looseSource .program = none := Node.definition?_eq_none (by decide)
  -- The call at the end defines nothing, so two units are extracted.
  have extracted : looseScope.extract looseSource =
      [⟨⟨"b", .expression, ⟨0, 17⟩, [], []⟩, [one]⟩,
        ⟨⟨"a", .declaration, ⟨18, 38⟩, [], []⟩, [body 31 38 [call 33]]⟩] := by
    simp only [Scope.extract, looseScope, looseTree, Extraction.scan, first, second, third]
    rfl
  rw [Scope.resolvedUnits, extracted]
  rfl

/-- The splice for the sample puts the function first. -/
theorem planned_looseScope : (looseScope.analyze looseSource).planned = .ok (some looseSplice) := by
  have order : (CallGraph.build [⟨"b", .expression, ⟨0, 17⟩, [], []⟩,
      ⟨"a", .declaration, ⟨18, 38⟩, [], ["b"]⟩]).readableOrder = ["a", "b"] := by cbv
  rw [Scope.planned_eq isWellFormed_looseTree.1]
  simp only [ScopeAnalysis.arrangement, Scope.analyze, resolvedUnits_looseScope, order]
  decide

/-- One round over the sample gives a text that the parser does not read cleanly. -/
theorem newText_looseTree : (reorder looseSource {} looseTree).newText = some brokenText := by
  -- The program is the only scope, and its splice is the only one to apply.
  have discovered : Scope.discover looseSource {} looseTree.root = [looseScope] := by rfl
  have splice : (looseScope.analyze looseSource).splice? = some looseSplice := by
    rw [ScopeAnalysis.splice?, planned_looseScope]
  simp only [reorder, analyzeTree, discovered, List.map_cons, List.map_nil, List.filterMap_cons, splice,
    List.filterMap_nil]
  decide +kernel

/-- The file with the callee first. -/
def looseFile : ParsedFile :=
  ⟨"a.js", .javascript, looseSource.hash, looseSource, looseTree⟩

/-- The file by itself. -/
def looseWorld : World :=
  { files := { entries := [(["a.js"], .file (String.ofList looseSource).toUTF8)] } }

/-- The only file of the sample can be read. -/
theorem parseFile_looseWorld : parseFile looseParser {} looseWorld.files "a.js" = .ok looseFile := by
  rw [FileTree.parseFile_eq_ok_iff]
  exact ⟨looseSource, FileTree.readText_eq_ok_iff.2 ⟨["a.js"], rfl, rfl⟩, rfl⟩

/-- The only file of the sample is found. -/
theorem collected_looseWorld : Command.collected {} ["a.js"] looseWorld.files = .ok ["a.js"] := by
  have single : collectAt looseWorld.files {} "a.js" = .ok ["a.js"] := by rfl
  simp [Command.collected, collect, single, Path.sortDistinct]

/-- Settling the file leaves it alone. -/
theorem settle_looseFile : (settle looseParser {} looseFile).result = .ok none := by
  let next : ParsedFile := ⟨"a.js", .javascript, brokenText.hash, brokenText, brokenTree⟩
  have parsed : parseText looseParser {} "a.js" brokenText = .ok next := by rfl
  have moves : looseFile.next? looseParser {} = some next :=
    ParsedFile.next?_eq_some_iff.2 ⟨brokenText, newText_looseTree, parsed⟩
  -- The first round leads to a text with errors.
  have breaks : looseFile.Breaks looseParser {} 8 :=
    ⟨1, by decide, next, by rw [ParsedFile.after?, moves]; rfl, rfl⟩
  exact settle_eq_none_iff.2 (.inr (.inr breaks))

end Sample

/--
A file that is reported may be left alone.

With the caller first, the constant of the sample runs into the call on the same line, so that the new text has
syntax errors.
-/
theorem Command.reported_and_left_alone :
    Sample.looseParser.IsSound ∧ 1 ≤ ({} : Settings).ordering.maxPasses ∧
    ∃ reports, (act (checkFiles Sample.looseParser {} ["a.js"]) Sample.looseWorld).1 = .ok reports ∧
      reports.map (·.path) = ["a.js"] ∧
      (act (fix Sample.looseParser {} ["a.js"] true) Sample.looseWorld).1 = .ok ⟨1, []⟩ := by
  have parsed := Sample.parseFile_looseWorld
  have collects := Sample.collected_looseWorld
  refine ⟨Sample.looseParser_isSound, by decide, ?_⟩
  -- The file is clean, and a round changes it.
  have unsteady : ¬ Sample.looseFile.IsSteady {} := by
    rw [ParsedFile.IsSteady]
    exact fun steady => nomatch Sample.newText_looseTree.symm.trans steady
  have reported := (ParsedFile.isSome_report?_iff Sample.looseParser_isSound
    (FileTree.isReadBy_of_parseFile parsed)).2 ⟨rfl, unsteady⟩
  obtain ⟨report, reported⟩ := Option.isSome_iff_exists.1 reported
  have settled : Sample.looseWorld.files.settledAt Sample.looseParser {} "a.js" = .ok none :=
    FileTree.settledAt_eq_ok_iff.2 ⟨Sample.looseFile, parsed, Sample.settle_looseFile⟩
  refine ⟨[report], ?_, ?_, ?_⟩
  · rw [(checkFiles_spec Sample.looseParser {} collects).1]
    rw [FileTree.reportsAmong_cons_of_ok parsed, reported]
    rfl
  · rw [List.map_singleton, ParsedFile.path_of_report? reported]
    rfl
  · rw [(fix_dry Sample.looseParser collects).1, FileTree.changedAmong_cons_of_ok settled]
    rfl

end CallersFirst
