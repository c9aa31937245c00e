import CallersFirst.Proofs.Settling.Again

/-! A file is said to be unsettled exactly if it has made all of its rounds, steady by then or not. -/

namespace CallersFirst

/-- A text that ends in another one. -/
def EndsIn (text ending : String) : Prop :=
  ending.toList <:+ text.toList

/-- A text ends in what was put at its end. -/
theorem endsIn_append (start ending : String) : EndsIn (start ++ ending) ending := by
  rw [EndsIn, String.toList_append]
  exact List.suffix_append _ _

/-- What is put in front of a text does not change how it ends. -/
theorem EndsIn.append {text ending : String} (ends : EndsIn text ending) (start : String) :
    EndsIn (start ++ text) ending := by
  rw [EndsIn, String.toList_append]
  exact List.IsSuffix.trans ends (List.suffix_append _ _)

namespace Notice

/-- The last words of all that is said while a file is settled, except that it is unsettled. -/
def ordinaryEndings : List String :=
  [" errors", " untouched", " ordering", " bytes", " overlap", " after it", " once", " units", "`", " twice"]

/-- A notice that says something else than that a file is unsettled. -/
def IsOrdinary (notice : Notice) : Prop :=
  ∃ ending ∈ ordinaryEndings, EndsIn notice.text ending

/-- A file is said to be unsettled in words of their own. -/
theorem IsOrdinary.ne_unsettled {notice : Notice} (ordinary : notice.IsOrdinary) (path : String) (passes : Nat) :
    notice ≠ Settled.unsettledNotice path passes := by
  rintro rfl
  obtain ⟨ending, listed, ends⟩ := ordinary
  -- Of two endings of one text one is an ending of the other.
  have said : EndsIn (Settled.unsettledNotice path passes).text " passes; keeping the last result" :=
    endsIn_append _ _
  have foreign : ∀ ending ∈ ordinaryEndings,
      ¬ (ending.toList <:+ " passes; keeping the last result".toList ∨
        " passes; keeping the last result".toList <:+ ending.toList) := by decide
  exact foreign ending listed (List.suffix_or_suffix_of_suffix ends said)

/-- The notice on a file with errors is not the one on an unsettled file. -/
theorem isOrdinary_skipNotice (path : String) : (Settled.skipNotice path).IsOrdinary :=
  ⟨" errors", by decide, (endsIn_append ": syntax" " errors").append _⟩

/-- The notice on a rewrite with errors is not the one on an unsettled file. -/
theorem isOrdinary_brokenNotice (path : String) : (Settled.brokenNotice path).IsOrdinary :=
  ⟨" untouched", by decide, (endsIn_append " did not parse cleanly; leaving it" " untouched").append _⟩

end Notice

/-- The reason of a refusal ends in ordinary words. -/
theorem ArrangeError.endsIn_message (refusal : ArrangeError) :
    ∃ ending ∈ Notice.ordinaryEndings, EndsIn refusal.message ending := by
  -- Every message is some names and numbers with fixed words at the end.
  cases refusal with
  | invalidRange name span size => exact ⟨" bytes", by decide, endsIn_append _ _⟩
  | overlappingUnits first second => exact ⟨" overlap", by decide, (endsIn_append "`" " overlap").append _⟩
  | unterminatedUnit name =>
    exact ⟨" after it", by decide, (endsIn_append "` would run it into the statement" " after it").append _⟩
  | orderMismatch mismatch =>
    cases mismatch with
    | repeatedUnit name =>
      exact ⟨" once", by decide, ((endsIn_append "` appears more than" " once").append _).append _⟩
    | countDiffers names units => exact ⟨" units", by decide, (endsIn_append _ _).append _⟩
    | unknownUnit name => exact ⟨"`", by decide, (endsIn_append _ _).append _⟩
    | listedTwice name => exact ⟨" twice", by decide, ((endsIn_append "` is listed" " twice").append _).append _⟩

/-- What is said about a scope is ordinary. -/
theorem ScopeAnalysis.isOrdinary_notices (analysis : ScopeAnalysis) :
    ∀ notice ∈ analysis.notices, notice.IsOrdinary := by
  intro notice said
  -- A duplicate is named, or the reason for a refusal is passed on.
  rcases List.mem_append.1 said with duplicate | refused
  · obtain ⟨unit, _, rfl⟩ := List.mem_map.1 duplicate
    exact ⟨" ordering", by decide, (endsIn_append "; excluding it from" " ordering").append _⟩
  · split at refused
    · cases refused
    · rename_i refusal _
      rw [List.mem_singleton.1 refused]
      obtain ⟨ending, listed, ends⟩ := refusal.endsIn_message
      exact ⟨ending, listed, ends.append _⟩

/-- What is said about the scopes of a text is ordinary. -/
theorem Outcome.isOrdinary_notices (outcome : Outcome) : ∀ notice ∈ outcome.notices, notice.IsOrdinary := by
  intro notice said
  obtain ⟨analysis, _, here⟩ := List.mem_flatMap.1 said
  exact analysis.isOrdinary_notices notice here

section Unsettled

variable {parser : Parser} {settings : Settings} {file : ParsedFile} {path : String}

/-- A clean file has its scopes talked about, and then whatever is said about the file after it, if any. -/
theorem notices_settleFrom_succ (changed : Bool) (rounds : Nat) (clean : file.tree.hasErrors = false)
    (named : file.path = path) :
    (settleFrom parser settings path changed file (rounds + 1)).notices =
      (reorder file.source settings.ordering file.tree).notices ++
        ((file.next? parser settings).elim [] fun next =>
          (settleFrom parser settings path true next rounds).notices) := by
  rw [ParsedFile.next?, named]
  -- A new text that cannot be read has nothing said about it.
  cases rewritten : (reorder file.source settings.ordering file.tree).newText with
  | none => simp [settleFrom, clean, rewritten]
  | some text =>
    cases parsed : parseText parser settings.parsing path text with
    | error failure => simp [settleFrom, clean, rewritten, parsed, Except.toOption]
    | ok next => simp [settleFrom, clean, rewritten, parsed, Except.toOption]

/-- With rounds left to be made, a file is said to be unsettled exactly if it makes all of them cleanly. -/
theorem unsettled_mem_settleFrom_iff (rounds : Nat) :
    ∀ {changed : Bool} {current : ParsedFile}, current.path = path →
      (Settled.unsettledNotice path settings.ordering.maxPasses ∈
          (settleFrom parser settings path changed current rounds).notices ↔
        current.StaysClean parser settings rounds) := by
  -- The induction is on the rounds left, and only when none is left the file is said to be unsettled.
  induction rounds with
  | zero =>
    intro changed current _
    cases broken : current.tree.hasErrors with
    | true =>
      have silent := (Notice.isOrdinary_brokenNotice path).ne_unsettled path settings.ordering.maxPasses
      refine iff_of_false ?_ fun clean => ?_
      · simpa [settleFrom, broken] using silent.symm
      · simp [clean.hasErrors] at broken
    | false => simp [settleFrom, broken, ParsedFile.staysClean_zero broken]
  | succ rounds ih =>
    intro changed current named
    cases broken : current.tree.hasErrors with
    | true =>
      have ordinary : (if changed then Settled.brokenNotice path else Settled.skipNotice path).IsOrdinary := by
        split
        · exact Notice.isOrdinary_brokenNotice path
        · exact Notice.isOrdinary_skipNotice path
      refine iff_of_false ?_ fun clean => ?_
      · simpa [settleFrom, broken] using (ordinary.ne_unsettled path settings.ordering.maxPasses).symm
      · simp [clean.hasErrors] at broken
    | false =>
      have silent : Settled.unsettledNotice path settings.ordering.maxPasses ∉
          (reorder current.source settings.ordering current.tree).notices := fun said =>
        (Outcome.isOrdinary_notices _ _ said).ne_unsettled path settings.ordering.maxPasses rfl
      rw [notices_settleFrom_succ changed rounds broken named, List.mem_append, or_iff_right silent]
      cases moves : current.next? parser settings with
      | none =>
        -- The work ends with this text, although there is a round left.
        refine iff_of_false (by simp) fun clean => ?_
        obtain ⟨reached, found, _⟩ := clean (rounds + 1) (by omega)
        have made := (ParsedFile.eq_of_after?_of_stays moves found).1
        omega
      | some next =>
        have nextNamed : next.path = path := (ParsedFile.parseText_of_next? moves).2.trans named
        rw [ParsedFile.staysClean_succ_iff moves, Option.elim_some, ih nextNamed]
        simp [broken]

end Unsettled

/--
A file is said to be unsettled exactly if it has made all the rounds that are allowed.

Then the text that comes out is the one that the last of these rounds has given. A text that one more
round would change never comes out without this being said. But the last round that is allowed may well
be the one that settles the file, so that what is said is not always so.
-/
theorem unsettled_iff_all_rounds (parser : Parser) {settings : Settings} (file : ParsedFile)
    (some_allowed : 1 ≤ settings.ordering.maxPasses) :
    (Settled.unsettledNotice file.path settings.ordering.maxPasses ∈ (settle parser settings file).notices ↔
      ∃ last, file.after? parser settings settings.ordering.maxPasses = some last ∧
        file.StaysClean parser settings settings.ordering.maxPasses ∧
        (settle parser settings file).result = .ok (some last.source)) ∧
    ∀ text last, (settle parser settings file).result = .ok (some text) →
      parseText parser settings.parsing file.path text = .ok last → ¬ last.IsSteady settings →
      Settled.unsettledNotice file.path settings.ordering.maxPasses ∈ (settle parser settings file).notices := by
  have said_iff : Settled.unsettledNotice file.path settings.ordering.maxPasses ∈
      (settle parser settings file).notices ↔ _ := unsettled_mem_settleFrom_iff _ rfl
  constructor
  · rw [said_iff]
    constructor
    · intro clean
      -- All rounds together lead to the last file, which is what settling gives.
      obtain ⟨last, reached, _⟩ := clean _ (Nat.le_refl _)
      refine ⟨last, reached, clean, settle_eq_some_iff.2 ⟨_, last, ?_, rfl, some_allowed⟩⟩
      exact ⟨Nat.le_refl _, reached, clean, .inr rfl⟩
    · intro ⟨_, _, clean, _⟩
      exact clean
  · intro text last settled parsed unsteady
    obtain ⟨made, reached, settles, rfl, some_made⟩ := settle_eq_some_iff.1 settled
    obtain ⟨before, rfl⟩ := Nat.exists_eq_add_of_le' some_made
    -- The text that comes out is read as the file that the last round has led to.
    have same : reached = last := by
      have readAgain := ParsedFile.parseText_of_after? before settles.reached
      rw [parsed] at readAgain
      cases readAgain
      rfl
    -- An unsteady file can only have stopped for want of rounds.
    rcases settles.stops with steady | all_made
    · exact absurd (same ▸ steady) unsteady
    · rw [said_iff, ← all_made]
      exact settles.clean

namespace Sample

/-- With one round allowed, a round over the text with the caller first still finds nothing to do. -/
theorem isSteady_sortedFile : sortedFile.IsSteady settings := by
  have discovered : Scope.discover sorted settings.ordering sortedTree.root = [sortedScope] := by rfl
  simp only [ParsedFile.IsSteady, sortedFile, reorder, analyzeTree, discovered, List.map_cons, List.map_nil,
    analyze_sortedScope]
  rfl

/-- With one round allowed, the file with the callee first is said to be unsettled. -/
theorem settle_oneRound : settle parser settings file =
    ⟨[Settled.unsettledNotice "a.js" 1], .ok (some sorted)⟩ := by
  have discovered : Scope.discover source settings.ordering tree.root = [scope] := by rfl
  -- The scope is put in order without a word, so the only notice is that of the last pass.
  have notices : (reorder source settings.ordering tree).notices = [] := by
    simp only [reorder, Outcome.notices, analyzeTree, discovered, List.map_cons, List.map_nil, analyze_scope]
    rfl
  have parsed : parseText parser settings.parsing "a.js" sorted = .ok sortedFile := by rfl
  rw [settle, show settings.ordering.maxPasses = 0 + 1 from rfl, settleFrom]
  simp only [file, newText_reorder, notices, parsed]
  rfl

end Sample

/-- The sample makes its only round, and is said to be unsettled. -/
theorem unsettled_iff_all_rounds_sample :
    1 ≤ Sample.settings.ordering.maxPasses ∧
    ∃ last, Sample.file.after? Sample.parser Sample.settings 1 = some last ∧
      Sample.file.StaysClean Sample.parser Sample.settings 1 := by
  have some_allowed : 1 ≤ Sample.settings.ordering.maxPasses := by decide
  -- The notice is there, so the general result tells what happened.
  have said : Settled.unsettledNotice Sample.file.path Sample.settings.ordering.maxPasses ∈
      (settle Sample.parser Sample.settings Sample.file).notices := by
    rw [Sample.settle_oneRound]
    exact List.mem_singleton_self _
  obtain ⟨last, reached, clean, _⟩ := (unsettled_iff_all_rounds Sample.parser Sample.file some_allowed).1.1 said
  exact ⟨some_allowed, last, reached, clean⟩

/-- The sample is said to be still changing, but one more round would not change the text that comes out. -/
theorem unsettled_though_steady :
    Sample.parser.IsSound ∧ 1 ≤ Sample.settings.ordering.maxPasses ∧
    Settled.unsettledNotice "a.js" 1 ∈ (settle Sample.parser Sample.settings Sample.file).notices ∧
    (Settled.unsettledNotice "a.js" 1).text = "a.js still changing after 1 passes; keeping the last result" ∧
    (settle Sample.parser Sample.settings Sample.file).result = .ok (some Sample.sorted) ∧
    parseText Sample.parser Sample.settings.parsing "a.js" Sample.sorted = .ok Sample.sortedFile ∧
    (reorder Sample.sorted Sample.settings.ordering Sample.sortedTree).newText = none := by
  rw [Sample.settle_oneRound]
  exact ⟨Sample.parser_isSound, by decide, List.mem_singleton_self _, by decide, rfl, rfl,
    Sample.isSteady_sortedFile⟩

end CallersFirst
