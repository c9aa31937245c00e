import CallersFirst.Proofs.Settling.Again

/-! Putting a file in order fails exactly if one of its rounds makes the text larger than allowed. -/

namespace CallersFirst

/-- A parser that has a tree for every text. -/
def Parser.IsTotal (parser : Parser) : Prop :=
  ∀ grammar text, ∃ tree, parser grammar text = some tree

/-- A file that one of a number of rounds makes larger than allowed, all files up to then being clean. -/
def ParsedFile.Outgrows (parser : Parser) (settings : Settings) (file : ParsedFile) (rounds : Nat) : Prop :=
  ∃ made < rounds, ∃ reached text, file.after? parser settings made = some reached ∧
    file.StaysClean parser settings made ∧
    (reorder reached.source settings.ordering reached.tree).newText = some text ∧
    settings.parsing.maxFileSize < text.byteSize

section Reading

variable {parser : Parser} {settings : ParsingSettings} {path : String} {language : Language} {source : Text}

/-- A text that is too large is refused for that reason, if its language is known. -/
theorem parseText_eq_tooLarge (known : settings.languageOf? path = some language)
    (large : settings.maxFileSize < source.byteSize) :
    parseText parser settings path source = .error (.tooLarge path) := by
  simp only [parseText, known, large, if_true]

/-- Any other text is read, if the parser has a tree for every text. -/
theorem parseText_eq_ok_of_isTotal (total : parser.IsTotal) (known : settings.languageOf? path = some language)
    (small : source.byteSize ≤ settings.maxFileSize) :
    ∃ file, parseText parser settings path source = .ok file := by
  obtain ⟨tree, found⟩ := total (language.grammar path) source
  exact ⟨_, parseText_eq_ok_iff.2 ⟨language, tree, known, small, found, rfl⟩⟩

end Reading

section Growth

variable {parser : Parser} {settings : Settings} {file next : ParsedFile} {rounds : Nat}

namespace ParsedFile

/-- A file with syntax errors outgrows nothing, as it is not changed. -/
theorem not_outgrows_of_errors (broken : file.tree.hasErrors = true) : ¬ file.Outgrows parser settings rounds := by
  intro ⟨made, _, reached, text, _, clean, _⟩
  simp [clean.hasErrors] at broken

/-- A steady file outgrows nothing. -/
theorem not_outgrows_of_isSteady (steady : file.IsSteady settings) : ¬ file.Outgrows parser settings rounds := by
  intro ⟨made, _, reached, text, found, _, rewritten, _⟩
  have same := (eq_of_after?_of_stays steady.next?_eq_none found).2
  rw [same, steady] at rewritten
  cases rewritten

/-- A clean file whose next text is read outgrows the greatest size if the next file does. -/
theorem outgrows_succ_iff (clean : file.tree.hasErrors = false) (moves : file.next? parser settings = some next) :
    file.Outgrows parser settings (rounds + 1) ↔ next.Outgrows parser settings rounds := by
  constructor
  · intro ⟨made, few, reached, text, found, stays, rewritten, large⟩
    cases made with
    | zero =>
      -- The text of the first round was read, and so it is not too large.
      cases found
      obtain ⟨same, rewrittenSame, parsed⟩ := next?_eq_some_iff.1 moves
      obtain ⟨_, _, _, small, _⟩ := parseText_eq_ok_iff.1 parsed
      rw [rewritten, Option.some.injEq] at rewrittenSame
      subst rewrittenSame
      omega
    | succ made =>
      rw [after?_succ_of_next? moves] at found
      exact ⟨made, by omega, reached, text, found, ((staysClean_succ_iff moves).1 stays).2, rewritten, large⟩
  · intro ⟨made, few, reached, text, found, stays, rewritten, large⟩
    rw [← after?_succ_of_next? moves] at found
    exact ⟨made + 1, by omega, reached, text, found, (staysClean_succ_iff moves).2 ⟨clean, stays⟩, rewritten, large⟩

end ParsedFile

/-- The rounds still to be made fail exactly if one of them makes the text too large. -/
theorem settleFrom_eq_error_iff (total : parser.IsTotal) {path : String} {language : Language}
    (known : settings.parsing.languageOf? path = some language) {failure : Failure} (rounds : Nat) :
    ∀ {changed : Bool} {current : ParsedFile}, current.path = path →
      ((settleFrom parser settings path changed current rounds).result = .error failure ↔
        failure = .tooLarge path ∧ current.Outgrows parser settings rounds) := by
  -- The induction is on the rounds left, and each round either ends the work or leads to the next file.
  induction rounds with
  | zero =>
    intro changed current _
    refine iff_of_false ?_ ?_
    · rw [settleFrom]
      split <;> simp
    · rintro ⟨_, made, none_left, _⟩
      omega
  | succ rounds ih =>
    intro changed current named
    cases broken : current.tree.hasErrors with
    | true =>
      refine iff_of_false ?_ fun outgrown => ParsedFile.not_outgrows_of_errors broken outgrown.2
      simp [settleFrom_of_errors broken]
    | false =>
      cases rewritten : (reorder current.source settings.ordering current.tree).newText with
      | none =>
        refine iff_of_false ?_ fun outgrown => ParsedFile.not_outgrows_of_isSteady rewritten outgrown.2
        simp [settleFrom_of_stops broken (.inl rewritten)]
      | some text =>
        by_cases small : text.byteSize ≤ settings.parsing.maxFileSize
        · -- The new text is read, and the work goes on with one round less.
          obtain ⟨next, parsed⟩ := parseText_eq_ok_of_isTotal total known small
          have moves : current.next? parser settings = some next :=
            ParsedFile.next?_eq_some_iff.2 ⟨text, rewritten, named ▸ parsed⟩
          obtain ⟨notices, same, nextNamed⟩ := settleFrom_of_next? changed rounds broken named moves
          rw [same, Settled.result_after, ih nextNamed, ParsedFile.outgrows_succ_iff broken moves]
        · -- The new text is refused, and the refusal is passed on.
          have large : settings.parsing.maxFileSize < text.byteSize := by omega
          have refused : parseText parser settings.parsing path text = .error (.tooLarge path) :=
            parseText_eq_tooLarge known large
          have outgrows : current.Outgrows parser settings (rounds + 1) :=
            ⟨0, by omega, current, text, rfl, ParsedFile.staysClean_zero broken, rewritten, large⟩
          simp [settleFrom, broken, rewritten, refused, outgrows, eq_comm]

end Growth

/--
Putting a file in order fails exactly if one of its rounds makes the text larger than allowed.

The file itself is not too large, as it was read under the same settings. But every round may lengthen the
text by the separators between units, and the new text is held to the same limit. For any other file there
is a result, provided that the parser has a tree for every text.
-/
theorem settle_fails_iff_outgrows {parser : Parser} {settings : Settings} {path : String} {source : Text}
    {file : ParsedFile} (total : parser.IsTotal)
    (accepted : parseText parser settings.parsing path source = .ok file) (failure : Failure) :
    (settle parser settings file).result = .error failure ↔
      failure = .tooLarge path ∧ file.Outgrows parser settings settings.ordering.maxPasses := by
  obtain ⟨language, tree, known, _, _, rfl⟩ := parseText_eq_ok_iff.1 accepted
  exact settleFrom_eq_error_iff total known _ rfl

namespace Sample

/-- A parser that can read the two texts, and finds errors in all others. -/
def reader : Parser := fun grammar text =>
  some ((parser grammar text).getD ⟨⟨"ERROR", true, ⟨0, text.byteSize⟩, none, []⟩, true⟩)

/-- Settings that allow for one round over a text of some size. -/
def roundOver (size : Nat) : Settings :=
  { parsing := { maxFileSize := size }, ordering := { maxPasses := 1 } }

/-- Every text has a well-formed tree. -/
theorem reader_isWellFormed (grammar : Grammar) (text : Text) :
    ∃ tree, reader grammar text = some tree ∧ tree.root.IsWellFormed text := by
  refine ⟨_, rfl, ?_⟩
  unfold parser
  split
  · rename_i same
    rw [same]
    decide
  · split
    · rename_i same
      rw [same]
      decide
    · -- The tree of any other text has its root only.
      intro node member
      have same : node = ⟨"ERROR", true, ⟨0, text.byteSize⟩, none, []⟩ := by
        simpa [Node.preorder, Node.preorderAll] using member
      subst same
      exact ⟨⟨Text.isBoundary_zero text, Text.isBoundary_byteSize text, Nat.zero_le _⟩, by simp, .nil⟩

/-- The parser of the sample has a tree for every text. -/
theorem reader_isTotal : reader.IsTotal := fun grammar text =>
  (reader_isWellFormed grammar text).imp fun _ found => found.1

/-- A round puts the caller first, whatever size is allowed. -/
theorem newText_roundOver (size : Nat) :
    (reorder file.source (roundOver size).ordering file.tree).newText = some sorted :=
  newText_reorder

end Sample

/-- With two bytes to spare, the only round of the sample outgrows nothing, so that nothing fails. -/
theorem settle_fails_iff_outgrows_sample :
    Sample.reader.IsTotal ∧
    parseText Sample.reader (Sample.roundOver 34).parsing "a.js" Sample.source = .ok Sample.file ∧
    ∀ failure, (settle Sample.reader (Sample.roundOver 34) Sample.file).result ≠ .error failure := by
  have accepted : parseText Sample.reader (Sample.roundOver 34).parsing "a.js" Sample.source =
      .ok Sample.file := by rfl
  refine ⟨Sample.reader_isTotal, accepted, fun failure failed => ?_⟩
  obtain ⟨_, made, few, reached, text, found, _, rewritten, large⟩ :=
    (settle_fails_iff_outgrows Sample.reader_isTotal accepted failure).1 failed
  -- Only one round is allowed, so it is the first one that would have to outgrow the limit.
  obtain rfl : made = 0 := by
    simp only [Sample.roundOver] at few
    omega
  cases found
  rw [Sample.newText_roundOver, Option.some.injEq] at rewritten
  subst rewritten
  exact absurd large (by decide)

/--
A file of just the allowed size is read, but cannot be put in order.

The parser has a well-formed tree for every text. The blank line between the two functions of the sample
makes the new text two bytes larger, and its refusal is the only result.
-/
theorem settle_fails_on_own_text :
    (∀ grammar text, ∃ tree, Sample.reader grammar text = some tree ∧ tree.root.IsWellFormed text) ∧
    Sample.source.byteSize = 32 ∧ (Sample.roundOver 32).parsing.maxFileSize = 32 ∧
    parseText Sample.reader (Sample.roundOver 32).parsing "a.js" Sample.source = .ok Sample.file ∧
    (settle Sample.reader (Sample.roundOver 32) Sample.file).result = .error (.tooLarge "a.js") := by
  -- The new text is past the limit, and so it is refused before it is parsed.
  have refused : parseText Sample.reader (Sample.roundOver 32).parsing "a.js" Sample.sorted =
      .error (.tooLarge "a.js") :=
    parseText_eq_tooLarge (show ParsingSettings.languageOf? _ _ = some .javascript from rfl) (by decide)
  refine ⟨Sample.reader_isWellFormed, by decide, rfl, rfl, ?_⟩
  rw [settle, show (Sample.roundOver 32).ordering.maxPasses = 0 + 1 from rfl, settleFrom]
  simp only [Sample.newText_roundOver]
  simp only [Sample.file, refused]
  rfl

end CallersFirst
