import CallersFirst.Proofs.ParsedFile
import CallersFirst.Settling

/-! What settling a file gives is told by the plain sequence of its rounds. -/

namespace CallersFirst

namespace ParsedFile

/-- The file after one round, if the round changes its text and the new text can be read. -/
def next? (parser : Parser) (settings : Settings) (file : ParsedFile) : Option ParsedFile :=
  (reorder file.source settings.ordering file.tree).newText.bind fun text =>
    (parseText parser settings.parsing file.path text).toOption

/-- The file after a number of rounds, each of which changes it. -/
def after? (parser : Parser) (settings : Settings) : Nat → ParsedFile → Option ParsedFile
  | 0, file => some file
  | rounds + 1, file => (file.next? parser settings).bind (after? parser settings rounds)

/-- A file on which one more round would change nothing. -/
def IsSteady (settings : Settings) (file : ParsedFile) : Prop :=
  (reorder file.source settings.ordering file.tree).newText = none

/-- A file that has no syntax errors, neither now nor after any of a number of rounds. -/
def StaysClean (parser : Parser) (settings : Settings) (file : ParsedFile) (rounds : Nat) : Prop :=
  ∀ made ≤ rounds, ∃ reached, file.after? parser settings made = some reached ∧
    reached.tree.hasErrors = false

/-- A file that has syntax errors now or after one of a number of rounds. -/
def Breaks (parser : Parser) (settings : Settings) (file : ParsedFile) (rounds : Nat) : Prop :=
  ∃ made ≤ rounds, ∃ reached, file.after? parser settings made = some reached ∧
    reached.tree.hasErrors = true

/-- The end of at most a number of rounds without errors: the last file is steady or all of them are made. -/
structure SettlesIn (parser : Parser) (settings : Settings) (file : ParsedFile) (rounds made : Nat)
    (last : ParsedFile) : Prop where
  /-- No more rounds are made than there are. -/
  bounded : made ≤ rounds
  /-- The rounds lead to the last file. -/
  reached : file.after? parser settings made = some last
  /-- Nothing on the way has syntax errors. -/
  clean : file.StaysClean parser settings made
  /-- The rounds stop for one of two reasons. -/
  stops : last.IsSteady settings ∨ made = rounds

section Rounds

variable {parser : Parser} {settings : Settings} {file next last : ParsedFile} {rounds made : Nat}

/-- A steady file has no next one. -/
theorem IsSteady.next?_eq_none (steady : file.IsSteady settings) : file.next? parser settings = none := by
  unfold IsSteady at steady
  rw [next?, steady, Option.bind_none]

/-- A next file is what the new text of a round is read as. -/
theorem next?_eq_some_iff :
    file.next? parser settings = some next ↔
      ∃ text, (reorder file.source settings.ordering file.tree).newText = some text ∧
        parseText parser settings.parsing file.path text = .ok next := by
  unfold next?
  -- There is no new text, or it cannot be read, or it is read as the next file.
  cases (reorder file.source settings.ordering file.tree).newText with
  | none => simp
  | some text =>
    cases parsed : parseText parser settings.parsing file.path text with
    | error failure => simp [Except.toOption, parsed]
    | ok read => simp [Except.toOption, parsed]

/-- The rounds after the first one start from what that one gives. -/
theorem after?_succ_of_next? (moves : file.next? parser settings = some next) (rounds : Nat) :
    file.after? parser settings (rounds + 1) = next.after? parser settings rounds := by
  rw [after?, moves, Option.bind_some]

/-- A file that makes no round leads to itself only. -/
theorem eq_of_after?_of_stays (stays : file.next? parser settings = none)
    (reached : file.after? parser settings made = some last) : made = 0 ∧ last = file := by
  cases made with
  | zero =>
    cases reached
    exact ⟨rfl, rfl⟩
  -- A first round would already have to lead somewhere.
  | succ made =>
    rw [after?, stays] at reached
    cases reached

/-- A file that stays clean is clean to begin with. -/
theorem StaysClean.hasErrors (clean : file.StaysClean parser settings rounds) :
    file.tree.hasErrors = false := by
  obtain ⟨reached, found, free⟩ := clean 0 (by omega)
  cases found
  exact free

/-- A file without errors is clean as long as there is no round. -/
theorem staysClean_zero (clean : file.tree.hasErrors = false) : file.StaysClean parser settings 0 := by
  intro made few
  have same : made = 0 := by omega
  subst same
  exact ⟨file, rfl, clean⟩

/-- With one round made, a file stays clean if it is clean itself and goes on clean. -/
theorem staysClean_succ_iff (moves : file.next? parser settings = some next) :
    file.StaysClean parser settings (rounds + 1) ↔
      file.tree.hasErrors = false ∧ next.StaysClean parser settings rounds := by
  constructor
  · intro clean
    refine ⟨clean.hasErrors, fun made few => ?_⟩
    -- What the next file reaches in some rounds, this one reaches in one more.
    rw [← after?_succ_of_next? moves]
    exact clean (made + 1) (by omega)
  · intro ⟨free, further⟩ made few
    cases made with
    | zero => exact ⟨file, rfl, free⟩
    | succ made =>
      rw [after?_succ_of_next? moves]
      exact further made (by omega)

/-- A file with syntax errors settles in no way. -/
theorem not_settlesIn_of_errors (broken : file.tree.hasErrors = true) :
    ¬ file.SettlesIn parser settings rounds made last := by
  intro settles
  rw [settles.clean.hasErrors] at broken
  cases broken

/-- A clean file settles at once if it is steady or no round is left. -/
theorem settlesIn_iff_of_stops (clean : file.tree.hasErrors = false)
    (stops : file.IsSteady settings ∨ rounds = 0) :
    file.SettlesIn parser settings rounds made last ↔ made = 0 ∧ last = file := by
  constructor
  · intro settles
    -- A steady file makes no round, and without rounds left none is counted.
    rcases stops with steady | none_left
    · exact eq_of_after?_of_stays steady.next?_eq_none settles.reached
    · have same : made = 0 := by
        have := settles.bounded
        omega
      subst same
      have reached := settles.reached
      cases reached
      exact ⟨rfl, rfl⟩
  · intro ⟨none_made, same⟩
    subst none_made same
    exact ⟨by omega, rfl, staysClean_zero clean, stops.imp id Eq.symm⟩

/-- A file whose next text cannot be read does not settle while there are rounds left. -/
theorem not_settlesIn_of_unread (unsteady : ¬ file.IsSteady settings)
    (stays : file.next? parser settings = none) :
    ¬ file.SettlesIn parser settings (rounds + 1) made last := by
  intro settles
  obtain ⟨none_made, same⟩ := eq_of_after?_of_stays stays settles.reached
  subst none_made same
  -- No round can be made, yet the file is not steady and rounds are left.
  rcases settles.stops with steady | none_left
  · exact unsteady steady
  · omega

/-- A clean file that makes a round settles as the next one does, in one round more. -/
theorem settlesIn_iff_of_next? (clean : file.tree.hasErrors = false)
    (moves : file.next? parser settings = some next) :
    file.SettlesIn parser settings (rounds + 1) made last ↔
      ∃ fewer, made = fewer + 1 ∧ next.SettlesIn parser settings rounds fewer last := by
  constructor
  · intro settles
    cases made with
    | zero =>
      -- The file is not steady, and there is a round left.
      exfalso
      have reached := settles.reached
      cases reached
      rcases settles.stops with steady | none_left
      · rw [steady.next?_eq_none] at moves
        cases moves
      · omega
    | succ fewer =>
      -- The first round leads to the next file, and the others are counted from there.
      have reached := settles.reached
      rw [after?_succ_of_next? moves] at reached
      refine ⟨fewer, rfl, ?_, reached, ((staysClean_succ_iff moves).1 settles.clean).2, ?_⟩
      · have := settles.bounded
        omega
      · exact settles.stops.imp id (by omega)
  · intro ⟨fewer, counted, settles⟩
    subst counted
    refine ⟨?_, ?_, (staysClean_succ_iff moves).2 ⟨clean, settles.clean⟩, settles.stops.imp id (by omega)⟩
    -- One more round in front changes neither where they lead nor where they stop.
    · have := settles.bounded
      omega
    · rw [after?_succ_of_next? moves]
      exact settles.reached

/-- A file with errors breaks before the first round. -/
theorem breaks_of_errors (broken : file.tree.hasErrors = true) : file.Breaks parser settings rounds :=
  ⟨0, by omega, file, rfl, broken⟩

/-- With one round made, a clean file breaks if the next one does. -/
theorem breaks_succ_iff (clean : file.tree.hasErrors = false)
    (moves : file.next? parser settings = some next) :
    file.Breaks parser settings (rounds + 1) ↔ next.Breaks parser settings rounds := by
  constructor
  · intro ⟨made, few, reached, found, broken⟩
    cases made with
    | zero =>
      -- The file itself is clean, so that it is not the broken one.
      cases found
      rw [clean] at broken
      cases broken
    | succ made =>
      rw [after?_succ_of_next? moves] at found
      exact ⟨made, by omega, reached, found, broken⟩
  · intro ⟨made, few, reached, found, broken⟩
    rw [← after?_succ_of_next? moves] at found
    exact ⟨made + 1, by omega, reached, found, broken⟩

/-- A clean file that makes no round never breaks. -/
theorem not_breaks_of_stays (clean : file.tree.hasErrors = false)
    (stays : file.next? parser settings = none ∨ rounds = 0) : ¬ file.Breaks parser settings rounds := by
  intro ⟨made, few, reached, found, broken⟩
  -- Only the file itself is reached, and that is clean.
  have same : reached = file := by
    rcases stays with stays | none_left
    · exact (eq_of_after?_of_stays stays found).2
    · have same : made = 0 := by omega
      subst same
      cases found
      rfl
  rw [same, clean] at broken
  cases broken

end Rounds

end ParsedFile

/-- Notices of an earlier round do not change the result. -/
@[simp] theorem Settled.result_after (earlier : List Notice) (settled : Settled) :
    (settled.after earlier).result = settled.result := rfl

/-- Notices of an earlier round come first. -/
@[simp] theorem Settled.notices_after (earlier : List Notice) (settled : Settled) :
    (settled.after earlier).notices = earlier ++ settled.notices := rfl

section Settle

variable {parser : Parser} {settings : Settings} {path : String} {changed : Bool}
  {current next : ParsedFile} {rounds : Nat}

/-- A file with syntax errors is given up, whatever rounds are left. -/
theorem settleFrom_of_errors (broken : current.tree.hasErrors = true) :
    (settleFrom parser settings path changed current rounds).result = .ok none := by
  cases rounds with
  | zero => simp only [settleFrom, broken, if_true]
  | succ rounds => simp only [settleFrom, broken, if_true]

/-- A clean file is taken as it is if it is steady or no round is left. -/
theorem settleFrom_of_stops (clean : current.tree.hasErrors = false)
    (stops : current.IsSteady settings ∨ rounds = 0) :
    (settleFrom parser settings path changed current rounds).result =
      .ok (if changed then some current.source else none) := by
  cases rounds with
  | zero => simp only [settleFrom, clean, Bool.false_eq_true, if_false]
  | succ rounds =>
    -- With a round left it is steadiness that stops the file.
    have steady := stops.resolve_right (by omega)
    unfold ParsedFile.IsSteady at steady
    simp only [settleFrom, clean, steady, Bool.false_eq_true, if_false]

/-- A clean file that can make a round is settled as the file after it. -/
theorem settleFrom_of_next? (changed : Bool) (rounds : Nat) (clean : current.tree.hasErrors = false)
    (named : current.path = path) (moves : current.next? parser settings = some next) :
    ∃ notices, settleFrom parser settings path changed current (rounds + 1) =
      (settleFrom parser settings path true next rounds).after notices ∧ next.path = path := by
  obtain ⟨text, rewritten, parsed⟩ := ParsedFile.next?_eq_some_iff.1 moves
  rw [named] at parsed
  refine ⟨(reorder current.source settings.ordering current.tree).notices, ?_, path_of_parseText parsed⟩
  simp only [settleFrom, clean, rewritten, parsed, Bool.false_eq_true, if_false]

/-- A clean file whose next text cannot be read gives no result. -/
theorem settleFrom_of_unread (changed : Bool) (rounds : Nat) (clean : current.tree.hasErrors = false)
    (named : current.path = path)
    (unsteady : ¬ current.IsSteady settings) (stays : current.next? parser settings = none) :
    ∃ failure, (settleFrom parser settings path changed current (rounds + 1)).result = .error failure := by
  unfold ParsedFile.IsSteady at unsteady
  cases rewritten : (reorder current.source settings.ordering current.tree).newText with
  | none => exact absurd rewritten unsteady
  | some text =>
    cases parsed : parseText parser settings.parsing path text with
    | error failure =>
      refine ⟨failure, ?_⟩
      simp only [settleFrom, clean, rewritten, parsed, Bool.false_eq_true, if_false]
    | ok read =>
      -- A text that is read would make a next file.
      rw [ParsedFile.next?_eq_some_iff.2 ⟨text, rewritten, named ▸ parsed⟩] at stays
      cases stays

/--
How a file stands with rounds left to be made.

It has errors, or nothing more is to be done, or its next text cannot be read, or there is a next file.
-/
theorem ParsedFile.stands (parser : Parser) (settings : Settings) (file : ParsedFile) (rounds : Nat) :
    file.tree.hasErrors = true ∨
      file.tree.hasErrors = false ∧
        ((file.IsSteady settings ∨ rounds = 0) ∨
          ∃ fewer, rounds = fewer + 1 ∧
            ((¬ file.IsSteady settings ∧ file.next? parser settings = none) ∨
              ∃ next, file.next? parser settings = some next)) := by
  cases broken : file.tree.hasErrors with
  | true => exact .inl rfl
  | false =>
    refine .inr ⟨rfl, ?_⟩
    by_cases steady : file.IsSteady settings
    · exact .inl (.inl steady)
    · cases rounds with
      | zero => exact .inl (.inr rfl)
      | succ fewer =>
        refine .inr ⟨fewer, rfl, ?_⟩
        -- Only now does it matter whether the new text can be read.
        cases moves : file.next? parser settings with
        | none => exact .inl ⟨steady, rfl⟩
        | some next => exact .inr ⟨next, rfl⟩

end Settle

section Characterization

variable {parser : Parser} {settings : Settings} {path : String}

/-- The rounds still to be made end with a text if they reach it without errors, some round being made. -/
theorem settleFrom_eq_some_iff {text : Text} (rounds : Nat) :
    ∀ {changed : Bool} {current : ParsedFile}, current.path = path →
      ((settleFrom parser settings path changed current rounds).result = .ok (some text) ↔
        ∃ made last, current.SettlesIn parser settings rounds made last ∧ last.source = text ∧
          (changed = false → 1 ≤ made)) := by
  -- The induction is on the rounds left, and a round that is made leads to the next file.
  induction rounds using Nat.strongRecOn with
  | _ rounds ih =>
    intro changed current named
    rcases current.stands parser settings rounds with
      broken | ⟨clean, stops | ⟨fewer, rfl, ⟨unsteady, stays⟩ | ⟨next, moves⟩⟩⟩
    · rw [settleFrom_of_errors broken]
      constructor
      · intro given
        cases given
      · intro ⟨made, last, settles, _⟩
        exact absurd settles (ParsedFile.not_settlesIn_of_errors broken)
    · -- The file is the last one, and counts only if an earlier round has changed it.
      rw [settleFrom_of_stops clean stops]
      simp only [ParsedFile.settlesIn_iff_of_stops clean stops]
      cases changed with
      | false =>
        constructor
        · intro given
          cases given
        · intro ⟨made, last, ⟨none_made, _⟩, _, some_made⟩
          have := some_made rfl
          omega
      | true =>
        constructor
        · intro given
          cases given
          exact ⟨0, current, ⟨rfl, rfl⟩, rfl, nofun⟩
        · intro ⟨made, last, ⟨_, same⟩, source, _⟩
          subst same source
          rfl
    · obtain ⟨failure, failed⟩ := settleFrom_of_unread changed fewer clean named unsteady stays
      rw [failed]
      constructor
      · intro given
        cases given
      · intro ⟨made, last, settles, _⟩
        exact absurd settles (ParsedFile.not_settlesIn_of_unread unsteady stays)
    · -- The next file has changed, and one round less is left.
      obtain ⟨notices, same, nextNamed⟩ := settleFrom_of_next? changed fewer clean named moves
      rw [same, Settled.result_after, ih fewer (by omega) nextNamed]
      simp only [ParsedFile.settlesIn_iff_of_next? clean moves]
      constructor
      · intro ⟨made, last, settles, source, _⟩
        exact ⟨made + 1, last, ⟨made, rfl, settles⟩, source, by omega⟩
      · intro ⟨made, last, ⟨before, _, settles⟩, source, _⟩
        exact ⟨before, last, settles, source, nofun⟩

/-- The rounds still to be made end without a text if nothing is changed or something breaks. -/
theorem settleFrom_eq_none_iff (rounds : Nat) :
    ∀ {changed : Bool} {current : ParsedFile}, current.path = path →
      ((settleFrom parser settings path changed current rounds).result = .ok none ↔
        changed = false ∧ (rounds = 0 ∨ current.IsSteady settings) ∨
          current.Breaks parser settings rounds) := by
  -- The same induction, now with an eye on the files that have errors.
  induction rounds using Nat.strongRecOn with
  | _ rounds ih =>
    intro changed current named
    rcases current.stands parser settings rounds with
      broken | ⟨clean, stops | ⟨fewer, rfl, ⟨unsteady, stays⟩ | ⟨next, moves⟩⟩⟩
    · rw [settleFrom_of_errors broken]
      simp only [ParsedFile.breaks_of_errors broken, or_true]
    -- A file that stops has a text only if something has changed before.
    · have unbroken : ¬ current.Breaks parser settings rounds :=
        ParsedFile.not_breaks_of_stays clean (stops.imp ParsedFile.IsSteady.next?_eq_none id)
      rw [settleFrom_of_stops clean stops]
      cases changed with
      | false => simp only [Bool.false_eq_true, if_false, stops.symm, and_self, true_or]
      | true => simp [unbroken]
    · obtain ⟨failure, failed⟩ := settleFrom_of_unread changed fewer clean named unsteady stays
      rw [failed]
      simp [unsteady, ParsedFile.not_breaks_of_stays clean (.inl stays)]
    -- A file with a next one is not steady.
    · have unsteady : ¬ current.IsSteady settings := by
        intro steady
        rw [steady.next?_eq_none] at moves
        cases moves
      obtain ⟨notices, same, nextNamed⟩ := settleFrom_of_next? changed fewer clean named moves
      rw [same, Settled.result_after, ih fewer (by omega) nextNamed, ParsedFile.breaks_succ_iff clean moves]
      simp [unsteady]

/-- Settling a file gives a text if at least one round leads to it without errors. -/
theorem settle_eq_some_iff {file : ParsedFile} {text : Text} :
    (settle parser settings file).result = .ok (some text) ↔
      ∃ made last, file.SettlesIn parser settings settings.ordering.maxPasses made last ∧
        last.source = text ∧ 1 ≤ made := by
  rw [settle, settleFrom_eq_some_iff _ rfl]
  simp only [true_imp_iff]

/-- Settling a file gives no text if no round is allowed, or the file is steady, or something breaks. -/
theorem settle_eq_none_iff {file : ParsedFile} :
    (settle parser settings file).result = .ok none ↔
      settings.ordering.maxPasses = 0 ∨ file.IsSteady settings ∨
        file.Breaks parser settings settings.ordering.maxPasses := by
  rw [settle, settleFrom_eq_none_iff _ rfl]
  simp only [true_and, or_assoc]

end Characterization

/--
Settling a file gives what the plain sequence of its rounds tells.

A text comes out if and only if between one and all of the allowed rounds lead to it, every text on the way
is free of syntax errors, and it is steady or the rounds are used up. Nothing comes out if and only if no
round is allowed, or the file is steady, or a text that the rounds reach has syntax errors.
-/
theorem settle_refines_rounds (parser : Parser) (settings : Settings) (file : ParsedFile) :
    (∀ text, (settle parser settings file).result = .ok (some text) ↔
      ∃ made last, 1 ≤ made ∧ made ≤ settings.ordering.maxPasses ∧
        file.after? parser settings made = some last ∧ last.source = text ∧
        file.StaysClean parser settings made ∧
        (last.IsSteady settings ∨ made = settings.ordering.maxPasses)) ∧
    ((settle parser settings file).result = .ok none ↔
      settings.ordering.maxPasses = 0 ∨ file.IsSteady settings ∨
        file.Breaks parser settings settings.ordering.maxPasses) := by
  refine ⟨fun text => ?_, settle_eq_none_iff⟩
  rw [settle_eq_some_iff]
  -- Between one and all rounds that lead to a text are what settling in rounds asks for.
  constructor
  · intro ⟨made, last, settles, source, some_made⟩
    exact ⟨made, last, some_made, settles.bounded, settles.reached, source, settles.clean, settles.stops⟩
  · intro ⟨made, last, some_made, bounded, reached, source, clean, stops⟩
    exact ⟨made, last, ⟨bounded, reached, clean, stops⟩, source, some_made⟩

end CallersFirst
