import CallersFirst.Arrangement.Continuation
import Mathlib.Data.List.Infix

/-! What stands before the first character of a text that is neither blank nor part of a comment. -/

namespace CallersFirst

namespace Text

/-- A text of nothing but blanks and comments, all of them closed. -/
inductive IsPassed : Text → Prop where
  /-- Nothing is left. -/
  | done : IsPassed []
  /-- A blank is passed. -/
  | blank {c : Char} {rest : Text} (blank : isBlank c) (onward : IsPassed rest) : IsPassed (c :: rest)
  /-- A line comment is closed by the first line feed in it. -/
  | lineComment {line rest : Text} (unbroken : '\n' ∉ line) (onward : IsPassed rest) :
      IsPassed ('/' :: '/' :: line ++ '\n' :: rest)
  /-- A block comment is closed by the first star in it that a slash follows. -/
  | blockComment {block rest : Text} (unclosed : ¬ ['*', '/'] <:+: block ++ ['*']) (onward : IsPassed rest) :
      IsPassed ('/' :: '*' :: block ++ '*' :: '/' :: rest)

/-- A comment that nothing closes. -/
inductive IsOpenComment : Text → Prop where
  /-- A line comment without a line feed. -/
  | line {line : Text} (unbroken : '\n' ∉ line) : IsOpenComment ('/' :: '/' :: line)
  /-- A block comment without a star that a slash follows. -/
  | block {block : Text} (unclosed : ¬ ['*', '/'] <:+: block) : IsOpenComment ('/' :: '*' :: block)

/-- A text that opens a comment with its first two characters. -/
def OpensComment (text : Text) : Prop :=
  ['/', '/'] <+: text ∨ ['/', '*'] <+: text

/-- Where blanks and closed comments come to an end. -/
inductive StopsPassing : Text → Prop where
  /-- Nothing is left. -/
  | finished : StopsPassing []
  /-- The rest is a comment that nothing closes. -/
  | openComment {rest : Text} (isOpen : IsOpenComment rest) : StopsPassing rest
  /-- The next character is neither blank nor opens a comment. -/
  | significant {c : Char} {rest : Text} (visible : ¬ isBlank c) (outside : ¬ OpensComment (c :: rest)) :
      StopsPassing (c :: rest)

/-- A text that ends inside a comment, with nothing but blanks and closed comments before it. -/
def EndsInComment (text : Text) : Prop :=
  ∃ passed rest, text = passed ++ rest ∧ IsPassed passed ∧ IsOpenComment rest

/-- The first character of a text outside of blanks and comments. -/
def IsFirstSignificant (text : Text) (c : Char) : Prop :=
  ∃ passed rest, text = passed ++ c :: rest ∧ IsPassed passed ∧ ¬ isBlank c ∧ ¬ OpensComment (c :: rest)

section Scanning

variable {rest line block : Text} {c : Char}

/-- A blank is passed over. -/
theorem nextSignificant_cons_of_isBlank (blank : isBlank c) (rest : Text) :
    nextSignificant (c :: rest) = nextSignificant rest := by
  rw [nextSignificant, if_pos blank]
  -- A slash is no blank.
  all_goals
    rintro _ same
    cases same
    exact absurd blank (by decide)

/-- A character that is neither blank nor opens a comment is the one looked for. -/
theorem nextSignificant_cons_of_not_isBlank (visible : ¬ isBlank c) (outside : ¬ OpensComment (c :: rest)) :
    nextSignificant (c :: rest) = some c := by
  rw [nextSignificant, if_neg visible]
  · rintro line rfl rfl
    exact outside (.inl ⟨line, rfl⟩)
  · rintro block rfl rfl
    exact outside (.inr ⟨block, rfl⟩)

/-- Inside a line comment everything is passed over up to a line feed. -/
theorem afterLineComment_append (unbroken : '\n' ∉ line) (rest : Text) :
    afterLineComment (line ++ rest) = afterLineComment rest := by
  induction line with
  | nil => rfl
  | cons c line ih =>
    -- The first character is no line feed, so it is passed.
    simp only [List.mem_cons, not_or] at unbroken
    rw [List.cons_append, afterLineComment, ih unbroken.2]
    simpa using Ne.symm unbroken.1

/-- Inside a block comment a character is passed over unless it closes the comment with the next one. -/
theorem afterBlockComment_cons (unclosed : ¬ ['*', '/'] <+: c :: rest) :
    afterBlockComment (c :: rest) = afterBlockComment rest := by
  rw [afterBlockComment]
  rintro back rfl rfl
  exact unclosed ⟨back, rfl⟩

/-- A block comment is left behind the first star that a slash follows. -/
theorem afterBlockComment_append (unclosed : ¬ ['*', '/'] <:+: block ++ ['*']) (rest : Text) :
    afterBlockComment (block ++ '*' :: '/' :: rest) = nextSignificant rest := by
  induction block with
  | nil => simp [afterBlockComment]
  | cons c block ih =>
    simp only [List.cons_append, List.infix_cons_iff, not_or] at unclosed
    rw [List.cons_append, afterBlockComment_cons, ih unclosed.2]
    -- The two closing characters would have to lie before the star that closes the comment.
    intro closing
    have front : c :: (block ++ ['*']) <+: c :: (block ++ '*' :: '/' :: rest) := ⟨'/' :: rest, by simp⟩
    exact unclosed.1 (List.prefix_of_prefix_length_le closing front (by simp))

/-- A block comment that nothing closes is never left. -/
theorem afterBlockComment_eq_none (unclosed : ¬ ['*', '/'] <:+: block) : afterBlockComment block = none := by
  induction block with
  | nil => rfl
  | cons c block ih =>
    simp only [List.infix_cons_iff, not_or] at unclosed
    rw [afterBlockComment_cons unclosed.1, ih unclosed.2]

/-- A block comment that is closed is closed by a first star that a slash follows. -/
theorem exists_block_end (closed : ['*', '/'] <:+: block) :
    ∃ inside rest, block = inside ++ '*' :: '/' :: rest ∧ ¬ ['*', '/'] <:+: inside ++ ['*'] := by
  induction block with
  | nil => simp at closed
  | cons c block ih =>
    by_cases here : ['*', '/'] <+: c :: block
    · obtain ⟨rest, same⟩ := here
      exact ⟨[], rest, same.symm, by decide⟩
    · obtain ⟨inside, rest, rfl, unclosed⟩ := ih ((List.infix_cons_iff.1 closed).resolve_left here)
      refine ⟨c :: inside, rest, rfl, ?_⟩
      -- What closes the comment earlier would stand at its very start.
      rw [List.cons_append, List.infix_cons_iff, not_or]
      refine ⟨fun early => here (early.trans ⟨'/' :: rest, by simp⟩), unclosed⟩

end Scanning

section Passed

variable {passed text rest : Text} {c : Char}

/-- Blanks and comments are passed one after the other. -/
theorem IsPassed.append (first : IsPassed passed) (second : IsPassed rest) : IsPassed (passed ++ rest) := by
  induction first with
  | done => exact second
  | blank blank _ ih => exact .blank blank ih
  | lineComment unbroken _ ih => simpa using IsPassed.lineComment unbroken ih
  | blockComment unclosed _ ih => simpa using IsPassed.blockComment unclosed ih

/-- Blanks and closed comments in front make no difference. -/
theorem IsPassed.nextSignificant_append (isPassed : IsPassed passed) (rest : Text) :
    nextSignificant (passed ++ rest) = nextSignificant rest := by
  -- What is passed is made of blanks and closed comments, and each of them is left behind.
  induction isPassed with
  | done => rfl
  | blank blank _ ih => rw [List.cons_append, nextSignificant_cons_of_isBlank blank, ih]
  | lineComment unbroken _ ih =>
    simp only [List.cons_append, List.append_assoc, nextSignificant]
    rw [afterLineComment_append unbroken, afterLineComment, ih]
  | blockComment unclosed _ ih =>
    simp only [List.cons_append, List.append_assoc, nextSignificant]
    rw [afterBlockComment_append unclosed, ih]

/-- In an open comment nothing is found. -/
theorem IsOpenComment.nextSignificant_eq_none (isOpen : IsOpenComment text) : nextSignificant text = none := by
  -- Neither the line feed nor the closing mark ever comes.
  cases isOpen with
  | @line line unbroken =>
    have passed := afterLineComment_append unbroken []
    rw [List.append_nil] at passed
    rw [nextSignificant, passed, afterLineComment]
  | block unclosed => rw [nextSignificant, afterBlockComment_eq_none unclosed]

/-- In a text that ends inside a comment nothing is found. -/
theorem EndsInComment.nextSignificant_eq_none (ends : EndsInComment text) : nextSignificant text = none := by
  obtain ⟨passed, rest, rfl, isPassed, isOpen⟩ := ends
  rw [isPassed.nextSignificant_append, isOpen.nextSignificant_eq_none]

/-- Whatever a text starts with, blanks and closed comments in it come to an end somewhere. -/
theorem exists_passed (text : Text) :
    ∃ passed rest, text = passed ++ rest ∧ IsPassed passed ∧ StopsPassing rest := by
  -- The induction is on the length, since a comment is passed as a whole.
  induction length : text.length using Nat.strong_induction_on generalizing text with
  | _ size shorter =>
    subst length
    -- What has been passed joins whatever is passed behind it.
    have onward : ∀ front back : Text, IsPassed front → text = front ++ back → back.length < text.length →
        ∃ passed rest, text = passed ++ rest ∧ IsPassed passed ∧ StopsPassing rest := by
      intro front back isPassed parts less
      obtain ⟨passed, rest, same, further, stops⟩ := shorter _ less back rfl
      exact ⟨front ++ passed, rest, by rw [parts, same, List.append_assoc], isPassed.append further, stops⟩
    cases text with
    | nil => exact ⟨[], [], rfl, .done, .finished⟩
    | cons c tail =>
      by_cases blank : isBlank c
      · exact onward [c] tail (.blank blank .done) rfl (by simp)
      by_cases opens : OpensComment (c :: tail)
      · -- The comment is closed by the first thing that can close it, or by nothing.
        rcases opens with ⟨line, same⟩ | ⟨block, same⟩
        · rw [← same] at onward ⊢
          by_cases broken : '\n' ∈ line
          · obtain ⟨inside, back, rfl, unbroken⟩ := List.eq_append_cons_of_mem broken
            exact onward _ back (.lineComment unbroken .done) (by simp) (by simp; omega)
          · exact ⟨[], _, rfl, .done, .openComment (.line broken)⟩
        · rw [← same] at onward ⊢
          by_cases closed : ['*', '/'] <:+: block
          · obtain ⟨inside, back, rfl, unclosed⟩ := exists_block_end closed
            exact onward _ back (.blockComment unclosed .done) (by simp) (by simp; omega)
          · exact ⟨[], _, rfl, .done, .openComment (.block closed)⟩
      · exact ⟨[], _, rfl, .done, .significant blank opens⟩

/-- The first significant character is found wherever there is one, and nothing else is. -/
theorem nextSignificant_eq_some_iff : text.nextSignificant = some c ↔ text.IsFirstSignificant c := by
  constructor
  · intro found
    obtain ⟨passed, rest, rfl, isPassed, stops⟩ := text.exists_passed
    rw [isPassed.nextSignificant_append] at found
    -- Behind what is passed the text ends, opens a comment for good, or shows a character.
    cases stops with
    | finished => cases found
    | openComment isOpen =>
      rw [isOpen.nextSignificant_eq_none] at found
      cases found
    | significant visible outside =>
      rw [nextSignificant_cons_of_not_isBlank visible outside] at found
      cases found
      exact ⟨passed, _, rfl, isPassed, visible, outside⟩
  · rintro ⟨passed, rest, rfl, isPassed, visible, outside⟩
    rw [isPassed.nextSignificant_append, nextSignificant_cons_of_not_isBlank visible outside]

/-- A text in which nothing is found is passed as a whole, unless it ends inside a comment. -/
theorem isPassed_of_nextSignificant_eq_none (nothing : text.nextSignificant = none)
    (closed : ¬ text.EndsInComment) : text.IsPassed := by
  obtain ⟨passed, rest, rfl, isPassed, stops⟩ := text.exists_passed
  rw [isPassed.nextSignificant_append] at nothing
  -- Of the three ways in which passing can stop, only the end of the text is left.
  cases stops with
  | finished => simpa using isPassed
  | openComment isOpen => exact absurd ⟨passed, rest, rfl, isPassed, isOpen⟩ closed
  | significant visible outside =>
    rw [nextSignificant_cons_of_not_isBlank visible outside] at nothing
    cases nothing

/-- A significant character other than a slash stays the first one, whatever is put behind the text. -/
theorem IsFirstSignificant.append (first : text.IsFirstSignificant c) (noSlash : c ≠ '/') (behind : Text) :
    IsFirstSignificant (text ++ behind) c := by
  obtain ⟨passed, rest, rfl, isPassed, visible, _⟩ := first
  refine ⟨passed, rest ++ behind, by simp, isPassed, visible, ?_⟩
  -- A slash at the end of the text could open a comment with what is put behind it.
  rintro (⟨line, same⟩ | ⟨block, same⟩)
  · exact noSlash (List.cons.inj same).1.symm
  · exact noSlash (List.cons.inj same).1.symm

end Passed

end Text

end CallersFirst
