import CallersFirst.Proofs.Settling
import CallersFirst.Proofs.Settling.Rounds

/-! A file that has settled is left alone from then on, by whatever path it is read. -/

namespace CallersFirst

section Again

variable {parser : Parser} {settings : Settings} {file next last : ParsedFile} {path : String}

namespace ParsedFile

/-- A next file is what its own text is read as, under the same path. -/
theorem parseText_of_next? (moves : file.next? parser settings = some next) :
    parseText parser settings.parsing file.path next.source = .ok next ∧ next.path = file.path := by
  obtain ⟨text, _, parsed⟩ := next?_eq_some_iff.1 moves
  obtain ⟨language, tree, _, _, _, rfl⟩ := parseText_eq_ok_iff.1 parsed
  exact ⟨parsed, rfl⟩

/-- So is every file that rounds have led to. -/
theorem parseText_of_after? (made : Nat) :
    ∀ {file : ParsedFile}, file.after? parser settings (made + 1) = some last →
      parseText parser settings.parsing file.path last.source = .ok last := by
  -- The last round that is made has read the text of the last file.
  induction made with
  | zero =>
    intro file reached
    obtain ⟨next, moves, same⟩ := Option.bind_eq_some_iff.1 reached
    cases same
    exact (parseText_of_next? moves).1
  | succ made ih =>
    intro file reached
    obtain ⟨next, moves, further⟩ := Option.bind_eq_some_iff.1 reached
    rw [← (parseText_of_next? moves).2]
    exact ih further

/-- Under another path with the same extension, the next file is the same. -/
theorem next?_renamed (same : Path.extension? path = Path.extension? file.path) :
    (file.renamed path).next? parser settings = (file.next? parser settings).map (·.renamed path) := by
  -- The new text does not depend on the path, and is read the same way.
  simp only [next?, renamed]
  cases (reorder file.source settings.ordering file.tree).newText with
  | none => rfl
  | some text => exact parseText_renamed same parser settings.parsing text

/-- Under another path with the same extension, rounds lead to the same files. -/
theorem after?_renamed (made : Nat) :
    ∀ {file : ParsedFile}, Path.extension? path = Path.extension? file.path →
      (file.renamed path).after? parser settings made =
        (file.after? parser settings made).map (·.renamed path) := by
  induction made with
  | zero =>
    intro file _
    rfl
  | succ made ih =>
    intro file same
    rw [after?, after?, next?_renamed same]
    -- The next file keeps the path of this one, so the extensions still agree.
    cases moves : file.next? parser settings with
    | none => rfl
    | some next =>
      have further : Path.extension? path = Path.extension? next.path := by
        rw [(parseText_of_next? moves).2]
        exact same
      simpa using ih further

/-- Under another path with the same extension, the same files break. -/
theorem Breaks.renamed {rounds : Nat} (same : Path.extension? path = Path.extension? file.path)
    (breaks : file.Breaks parser settings rounds) :
    (file.renamed path).Breaks parser settings rounds := by
  obtain ⟨made, few, reached, found, broken⟩ := breaks
  refine ⟨made, few, reached.renamed path, ?_, broken⟩
  rw [after?_renamed made same, found, Option.map_some]

end ParsedFile

/-- Under another path with the same extension, the same files are left alone. -/
theorem settle_renamed_eq_none (same : Path.extension? path = Path.extension? file.path)
    (alone : (settle parser settings file).result = .ok none) :
    (settle parser settings (file.renamed path)).result = .ok none := by
  rw [settle_eq_none_iff] at alone ⊢
  rcases alone with no_rounds | steady | breaks
  · exact .inl no_rounds
  · exact .inr (.inl steady)
  · exact .inr (.inr (breaks.renamed same))

/-- A file that makes all of its rounds is said to be unsettled. -/
theorem unsettled_of_settlesIn (rounds : Nat) :
    ∀ {changed : Bool} {current : ParsedFile}, current.path = path →
      current.SettlesIn parser settings rounds rounds last →
      Settled.unsettledNotice path settings.ordering.maxPasses ∈
        (settleFrom parser settings path changed current rounds).notices := by
  induction rounds with
  | zero =>
    intro changed current _ settles
    simp [settleFrom, settles.clean.hasErrors]
  | succ rounds ih =>
    intro changed current named settles
    -- The first round is made, and the file that it leads to makes all of the others.
    obtain ⟨next, moves, _⟩ := Option.bind_eq_some_iff.1 settles.reached
    obtain ⟨fewer, counted, further⟩ :=
      (ParsedFile.settlesIn_iff_of_next? settles.clean.hasErrors moves).1 settles
    cases counted
    obtain ⟨notices, same, nextNamed⟩ :=
      settleFrom_of_next? changed rounds settles.clean.hasErrors named moves
    rw [same, Settled.notices_after]
    exact List.mem_append_right _ (ih nextNamed further)

/--
What has come out of settling a file is left alone the next time, unless the file was said to be unsettled.

The last text is read again as the same file, which is clean and steady.
-/
theorem settle_again {text : Text} (settled : (settle parser settings file).result = .ok (some text))
    (quiet : Settled.unsettledNotice file.path settings.ordering.maxPasses ∉
      (settle parser settings file).notices) :
    ∃ last, parseText parser settings.parsing file.path text = .ok last ∧
      (settle parser settings last).result = .ok none := by
  obtain ⟨made, last, settles, source, some_made⟩ := settle_eq_some_iff.1 settled
  obtain ⟨before, counted⟩ := Nat.exists_eq_succ_of_ne_zero (Nat.one_le_iff_ne_zero.1 some_made)
  subst counted source
  refine ⟨last, ParsedFile.parseText_of_after? before settles.reached, ?_⟩
  -- Had the file made all its rounds, this would have been said.
  have steady : last.IsSteady settings := by
    rcases settles.stops with steady | all_made
    · exact steady
    · rw [all_made] at settles
      exact absurd (unsettled_of_settlesIn _ rfl settles) quiet
  exact settle_eq_none_iff.2 (.inr (.inl steady))

end Again

namespace Sample

/-- The only scope of the text with the caller first. -/
def sortedScope : Scope :=
  ⟨.program, sortedTree.root, none⟩

/-- The caller, standing first. -/
def firstCaller : CallableUnit :=
  ⟨"a", .declaration, ⟨0, 17⟩, [], ["b"]⟩

/-- The callee, standing last. -/
def lastCallee : CallableUnit :=
  ⟨"b", .declaration, ⟨19, 33⟩, [], []⟩

/-- The units of the sorted text are the caller and the callee, in this order. -/
theorem resolvedUnits_sortedScope : sortedScope.resolvedUnits sorted = [firstCaller, lastCallee] := by
  have outside : ScopeKind.program ≠ .classBody := by decide
  -- The call stands in the body of the caller, which is the first unit now.
  have extracted : sortedScope.extract sorted =
      [⟨{ firstCaller with calls := [] }, [body 12 17 [call 13]]⟩,
        ⟨{ lastCallee with calls := [] }, [body 31 33 []]⟩] := by
    simp only [Scope.extract, sortedScope, sortedTree, Extraction.scan, definition?_declaration sorted outside]
    rfl
  rw [Scope.resolvedUnits, extracted]
  rfl

/-- The scope with the caller first asks for nothing. -/
theorem analyze_sortedScope : sortedScope.analyze sorted =
    ⟨sortedScope, CallGraph.build [firstCaller, lastCallee], ["a", "b"], .ok none⟩ := by
  have units : (CallGraph.build [firstCaller, lastCallee]).units = [firstCaller, lastCallee] := by decide
  have order : (CallGraph.build [firstCaller, lastCallee]).readableOrder = ["a", "b"] := by cbv
  have planned : plan sorted [firstCaller, lastCallee] ["a", "b"] = .ok none := by
    have placed : ∀ unit ∈ [firstCaller, lastCallee], unit.IsPlaced sorted := by decide
    have apart : [firstCaller, lastCallee].Pairwise fun first second => first.span.stop ≤ second.fullStart := by
      decide
    -- The units stand in the order that is wanted, so the arrangement moves nothing.
    have inOrder := inSourceOrder_eq_self placed apart
    have arranged : arrange sorted [firstCaller, lastCallee] ["a", "b"] =
        .ok ⟨[firstCaller, lastCallee], [firstCaller, lastCallee]⟩ :=
      arrange_eq_ok_iff.2 ⟨placed, inOrder.symm ▸ apart, inOrder.symm, by decide, .refl _, rfl⟩
    rw [plan_eq (by simp), arranged]
    rfl
  rw [Scope.analyze, resolvedUnits_sortedScope, units, order, planned]

/-- The file with the caller first. -/
def sortedFile : ParsedFile :=
  ⟨"a.js", .javascript, sorted.hash, sorted, sortedTree⟩

/-- A round over the text with the caller first finds nothing to do. -/
theorem reorder_sorted :
    (reorder sorted {} sortedTree).newText = none ∧ (reorder sorted {} sortedTree).notices = [] := by
  have discovered : Scope.discover sorted {} sortedTree.root = [sortedScope] := by rfl
  simp only [reorder, Outcome.notices, analyzeTree, discovered, List.map_cons, List.map_nil, analyze_sortedScope]
  exact ⟨rfl, rfl⟩

/-- A round over the text with the callee first puts the caller first. -/
theorem reorder_source :
    (reorder source {} tree).newText = some sorted ∧ (reorder source {} tree).notices = [] := by
  have discovered : Scope.discover source {} tree.root = [scope] := by rfl
  simp only [reorder, Outcome.notices, analyzeTree, discovered, List.map_cons, List.map_nil, analyze_scope]
  exact ⟨by decide +kernel, rfl⟩

/-- The file with the caller first is left alone. -/
theorem settle_sortedFile (path : String) : settle parser {} (sortedFile.renamed path) = ⟨[], .ok none⟩ := by
  rw [settle, show ({} : OrderingSettings).maxPasses = 7 + 1 from rfl, settleFrom]
  simp only [sortedFile, ParsedFile.renamed, reorder_sorted]
  rfl

/-- The file with the callee first comes out with the caller first. -/
theorem settle_file : settle parser {} file = ⟨[], .ok (some sorted)⟩ := by
  have parsed : parseText parser {} "a.js" sorted = .ok sortedFile := by rfl
  -- One round puts the caller first, and the next one finds nothing to do.
  rw [settle, show ({} : OrderingSettings).maxPasses = 6 + 1 + 1 from rfl, settleFrom]
  simp only [file, reorder_source, parsed]
  rw [settleFrom]
  simp only [sortedFile, reorder_sorted]
  rfl

end Sample

end CallersFirst
