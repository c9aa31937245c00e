import CallersFirst.Proofs.Analysis
import CallersFirst.Settling

/-! Putting a file in order, over any number of rounds, keeps the ink of its text. -/

namespace CallersFirst

/--
A parser whose trees can be relied on.

Whatever it reads without errors has a well-formed tree without empty nodes, except perhaps the root.
-/
def Parser.IsSound (parser : Parser) : Prop :=
  ∀ grammar text tree, parser grammar text = some tree → tree.hasErrors = false →
    tree.root.IsWellFormed text ∧ tree.root.PartsFilled

/-- A file that a parser has read, as every round finds it. -/
def ParsedFile.IsReadBy (parser : Parser) (file : ParsedFile) : Prop :=
  ∃ grammar, parser grammar file.source = some file.tree

/-- Reading a text gives a file of that text, with the tree that the parser finds. -/
theorem isReadBy_of_parseText {parser : Parser} {settings : ParsingSettings} {path : String}
    {source : Text} {file : ParsedFile} (parsed : parseText parser settings path source = .ok file) :
    file.source = source ∧ file.IsReadBy parser := by
  -- A file comes out only if all three questions are answered well.
  unfold parseText at parsed
  split at parsed
  · cases parsed
  · split at parsed
    · cases parsed
    · split at parsed
      · cases parsed
      · rename_i tree found
        cases parsed
        exact ⟨rfl, _, found⟩

section Rounds

variable {parser : Parser} {settings : Settings} {path : String} {text : Text}

/--
What the rounds still to be made give, if they give a text.

Either an earlier round has changed the file and nothing more is done, or this round changes it and the
further ones go on from there.
-/
theorem settleFrom_cases {changed : Bool} {current : ParsedFile} {rounds : Nat}
    (settled : (settleFrom parser settings path changed current rounds).result = .ok (some text)) :
    current.tree.hasErrors = false ∧
      (changed = true ∧ text = current.source ∨
        ∃ fewer newText next, rounds = fewer + 1 ∧
          (reorder current.source settings.ordering current.tree).newText = some newText ∧
          parseText parser settings.parsing path newText = .ok next ∧
          (settleFrom parser settings path true next fewer).result = .ok (some text)) := by
  -- Without a further change, the result is the current text or nothing.
  have kept : Except.ok (if changed then some current.source else none) =
      (.ok (some text) : Except Failure (Option Text)) → changed = true ∧ text = current.source := by
    intro same
    cases changed with
    | false => cases same
    | true =>
      cases same
      exact ⟨rfl, rfl⟩
  unfold settleFrom at settled
  split at settled
  · -- No round is left.
    split at settled
    · cases settled
    · rename_i clean
      exact ⟨by simpa using clean, .inl (kept settled)⟩
  · split at settled
    · cases settled
    · rename_i clean
      refine ⟨by simpa using clean, ?_⟩
      -- This round changes the text or ends the work.
      dsimp only at settled
      split at settled
      · exact .inl (kept settled)
      · rename_i newText rewritten
        split at settled
        · cases settled
        · rename_i next parsed
          exact .inr ⟨_, newText, next, rfl, rewritten, parsed, settled⟩

/-- The rounds still to be made keep the ink of the text they start with. -/
theorem ink_settleFrom (sound : parser.IsSound) {rounds : Nat} :
    ∀ {changed : Bool} {current : ParsedFile}, current.IsReadBy parser →
      (settleFrom parser settings path changed current rounds).result = .ok (some text) →
      text.ink = current.source.ink := by
  -- Each round keeps the ink, and leaves one round less.
  induction rounds with
  | zero =>
    intro changed current _ settled
    rcases (settleFrom_cases settled).2 with ⟨_, same⟩ | ⟨fewer, _, _, counted, _⟩
    · rw [same]
    · cases counted
  | succ rounds ih =>
    rintro changed current ⟨grammar, read⟩ settled
    obtain ⟨clean, ⟨_, same⟩ | ⟨fewer, newText, next, counted, rewritten, parsed, further⟩⟩ :=
      settleFrom_cases settled
    · rw [same]
    · -- The tree is free of errors, so that the parser can be relied on.
      cases counted
      obtain ⟨wellFormed, filled⟩ := sound grammar _ _ read clean
      obtain ⟨nextSource, nextRead⟩ := isReadBy_of_parseText parsed
      calc text.ink = next.source.ink := ih nextRead further
        _ = newText.ink := by rw [nextSource]
        _ = current.source.ink := ink_reorder wellFormed filled rewritten

end Rounds

/-- Putting a file in order neither adds, drops nor alters any character other than blanks. -/
theorem ink_settle {parser : Parser} {settings : Settings} {parsing : ParsingSettings} {path : String}
    {source text : Text} {file : ParsedFile} (sound : parser.IsSound)
    (parsed : parseText parser parsing path source = .ok file)
    (settled : (settle parser settings file).result = .ok (some text)) : text.ink = source.ink := by
  -- The first round starts with the text that was read.
  obtain ⟨same, read⟩ := isReadBy_of_parseText parsed
  rw [← same]
  exact ink_settleFrom sound read settled

namespace Sample

/-- The text with the caller first. -/
def sorted : Text :=
  "function a()\x7bb()\x7d\n\nfunction b()\x7b\x7d\n".toList

/-- The tree of the text with the caller first. -/
def sortedTree : SyntaxTree :=
  ⟨⟨"program", true, ⟨0, 34⟩, none, [declaration 0 17 [call 13], declaration 19 33 []]⟩, false⟩

/-- A parser that can read these two texts. -/
def parser : Parser := fun _ text =>
  if text = source then some tree else if text = sorted then some sortedTree else none

/-- The file with the callee first. -/
def file : ParsedFile :=
  ⟨"a.js", .javascript, source.hash, source, tree⟩

/-- Settings that allow for one round. -/
def settings : Settings :=
  { ordering := { maxPasses := 1 } }

/-- The trees of both texts can be relied on. -/
theorem parser_isSound : parser.IsSound := by
  -- The two trees are checked node by node.
  intro grammar text tree read _
  unfold parser at read
  split at read
  · rename_i same
    cases read
    rw [same]
    decide
  · split at read
    · rename_i same
      cases read
      rw [same]
      decide
    · cases read

/-- The units of the sample are arranged with the caller first. -/
theorem arrange_units : arrange source [callee, caller] ["a", "b"] =
    .ok ⟨[callee, caller], [caller, callee]⟩ := by
  -- The units are in source order already, so that nothing need be sorted.
  have placed : ∀ unit ∈ [callee, caller], unit.IsPlaced source := by decide
  have apart : [callee, caller].Pairwise fun first second => first.span.stop ≤ second.fullStart := by decide
  have sorted := inSourceOrder_eq_self placed apart
  exact arrange_eq_ok_iff.2 ⟨placed, sorted.symm ▸ apart, sorted.symm, by decide, .swap .., rfl⟩

/-- The scope of the sample asks for the caller first. -/
theorem analyze_scope : scope.analyze source = ⟨scope, CallGraph.build [callee, caller], ["a", "b"],
    .ok (some ⟨⟨0, 31⟩, "function a()\x7bb()\x7d\n\nfunction b()\x7b\x7d".toList⟩)⟩ := by
  have units : (CallGraph.build [callee, caller]).units = [callee, caller] := by decide
  have order : (CallGraph.build [callee, caller]).readableOrder = ["a", "b"] := by cbv
  -- The two functions are placed and change places.
  have planned : plan source [callee, caller] ["a", "b"] =
      .ok (some ⟨⟨0, 31⟩, "function a()\x7bb()\x7d\n\nfunction b()\x7b\x7d".toList⟩) := by
    rw [plan_eq (by simp), arrange_units]
    decide
  rw [Scope.analyze, resolvedUnits_scope, units, order, planned]

/-- One round puts the caller first. -/
theorem newText_reorder : (reorder source settings.ordering tree).newText = some sorted := by
  have discovered : Scope.discover source settings.ordering tree.root = [scope] := by rfl
  -- The text is changed by the one splice that is planned.
  simp only [reorder, analyzeTree, discovered, List.map_cons, List.map_nil, analyze_scope]
  decide +kernel

end Sample

/-- The sample is settled after one round, with the caller first and the same ink. -/
theorem ink_settle_sample :
    (settle Sample.parser Sample.settings Sample.file).result = .ok (some Sample.sorted) ∧
      Sample.sorted.ink = Sample.source.ink := by
  have parsed : parseText Sample.parser {} "a.js" Sample.source = .ok Sample.file := by rfl
  have parsedAgain : parseText Sample.parser Sample.settings.parsing "a.js" Sample.sorted =
      .ok ⟨"a.js", .javascript, Sample.sorted.hash, Sample.sorted, Sample.sortedTree⟩ := by rfl
  -- The only pass rewrites the text, which is read cleanly.
  have settled : (settle Sample.parser Sample.settings Sample.file).result = .ok (some Sample.sorted) := by
    rw [settle, show Sample.settings.ordering.maxPasses = 0 + 1 from rfl, settleFrom]
    simp only [Sample.file, Sample.newText_reorder, parsedAgain]
    rfl
  exact ⟨settled, ink_settle Sample.parser_isSound parsed settled⟩

end CallersFirst
