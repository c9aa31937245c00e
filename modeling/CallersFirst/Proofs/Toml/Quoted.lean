import CallersFirst.Toml.Quoted
import CallersFirst.Toml.Writer
import Mathlib.Data.Option.Basic
import Mathlib.Tactic.SplitIfs

/-! A text that is quoted, in whichever of the four kinds, reads back as that text. -/

namespace CallersFirst.Toml

section Codes

variable {c : Char} {multi : Bool} {code : Text}

/-- A hexadecimal digit reads back as the number it was written for. -/
theorem hexDigit?_hexDigit {number : Nat} (small : number < 16) : hexDigit? (hexDigit number) = some number := by
  have all : ∀ number : Fin 16, hexDigit? (hexDigit number) = some number.val := by decide
  exact all ⟨number, small⟩

/-- A code point of four hexadecimal digits reads back as its character. -/
theorem codePoint?_hexCode (small : c.toNat < 65536) : codePoint? (hexCode c) = some c := by
  -- The four digits are the number of the character to the base sixteen.
  have number : hexNumber? (hexCode c) = some c.toNat := by
    have digits (place : Nat) := hexDigit?_hexDigit (Nat.mod_lt (c.toNat / place) (by decide : 0 < 16))
    simp only [hexNumber?, hexCode, List.foldlM_cons, List.foldlM_nil, digits,
      hexDigit?_hexDigit (Nat.mod_lt c.toNat (by decide : 0 < 16))]
    simp only [Option.map_some, Option.bind_eq_bind, Option.bind_some, Option.pure_def, Option.some.injEq]
    omega
  have valid : c.toNat.isValidChar := c.valid
  rw [codePoint?, number, Option.bind_eq_bind, Option.bind_some, (Option.guard_eq_some' ()).2 valid, Char.ofNat_toNat]
  rfl

/-- An escape is a letter that stands for its character, or the code point of its character. -/
theorem escape?_eq_some (found : escape? multi c = some code) :
    (∃ letter, code = ['\\', letter] ∧ shortEscape? letter = some c) ∨
      code = '\\' :: 'u' :: hexCode c ∧ codePoint? (hexCode c) = some c := by
  unfold escape? at found
  -- Six characters have a letter of their own, and the other control characters are written by their number.
  split_ifs at found
  iterate 6
    · cases found
      subst c
      exact .inl ⟨_, rfl, rfl⟩
  · exact .inr ⟨(Option.some.inj found).symm, codePoint?_hexCode (by omega)⟩

/-- A character without an escape stands for itself, or is a line break where these may stand. -/
theorem escape?_eq_none (missing : escape? multi c = none) :
    c ≠ '\\' ∧ c ≠ '\r' ∧ (isPlain c ∨ multi ∧ c = '\n') := by
  unfold escape? at missing
  -- The two branches that give nothing: a line break between several lines, and a printable character.
  split_ifs at missing with _ _ newline several _ noReturn noBackslash printable
  · subst newline
    exact ⟨by decide, by decide, .inr ⟨several, rfl⟩⟩
  · refine ⟨noBackslash, noReturn, .inl ?_⟩
    simp only [isPlain, Bool.or_eq_true, Bool.and_eq_true, decide_eq_true_eq]
    omega

/-- A letter behind a backslash that stands for a character is no blank and starts no code point. -/
theorem shortEscape?_eq_some {letter : Char} (found : shortEscape? letter = some c) :
    letter ≠ 'u' ∧ letter ≠ 'U' ∧ letter ≠ '\n' ∧ letter ≠ '\r' ∧ isSpace letter = false := by
  unfold shortEscape? at found
  split at found
  all_goals first | decide | cases found

end Codes

/-- A code that a reader takes for a character, whatever follows it. -/
def Spells (reader : Text → Option (Text × Text)) (code : Text) (c : Char) : Prop :=
  ∀ tail, reader (code ++ tail) = (reader tail).map (prepend c)

/-- The escape of a character spells it, for a reader that knows letters and code points. -/
theorem Spells.of_escape {reader : Text → Option (Text × Text)} {multi : Bool} {c : Char} {code : Text}
    (letters : ∀ letter c, shortEscape? letter = some c → Spells reader ['\\', letter] c)
    (points : ∀ c, codePoint? (hexCode c) = some c → Spells reader ('\\' :: 'u' :: hexCode c) c)
    (found : escape? multi c = some code) : Spells reader code c := by
  rcases escape?_eq_some found with ⟨letter, rfl, short⟩ | ⟨rfl, known⟩
  · exact letters letter c short
  · exact points c known

section OneLine

variable {c : Char}

/-- On one line a backslash and a letter are read as the character that the letter stands for. -/
theorem spells_basicRest_letter (letter c : Char) (short : shortEscape? letter = some c) :
    Spells basicRest ['\\', letter] c := by
  obtain ⟨noPoint, noLongPoint, _⟩ := shortEscape?_eq_some short
  intro tail
  -- The letter is none of the two that announce a code point.
  rw [List.cons_append, List.cons_append, List.nil_append, basicRest, short]
  · cases basicRest tail with
    | none => rfl
    | some reading => rfl
  · simp_all
  · simp_all

/-- On one line a code point is read as its character. -/
theorem spells_basicRest_point (c : Char) (known : codePoint? (hexCode c) = some c) :
    Spells basicRest ('\\' :: 'u' :: hexCode c) c := by
  intro tail
  rw [hexCode] at known
  -- The four digits are read together, and then the rest is.
  simp only [hexCode, List.cons_append, List.nil_append, basicRest, known]
  cases basicRest tail with
  | none => rfl
  | some reading => rfl

/-- On one line a plain character is read as itself. -/
theorem spells_basicRest_self (noMark : c ≠ '\x22') (noEscape : c ≠ '\\') (plain : isPlain c) :
    Spells basicRest [c] c := by
  intro tail
  rw [List.singleton_append, basicRest, if_pos plain]
  all_goals simp_all

/-- A text with escapes on one line is read up to its closing mark. -/
theorem basicRest_escaped (text rest : Text) :
    basicRest (escaped false 0 text ++ '\x22' :: rest) = some (text, rest) := by
  -- Each character is written by a code that spells it.
  have spelled : ∀ c text, ∃ code, Spells basicRest code c ∧
      escaped false 0 (c :: text) = code ++ escaped false 0 text := by
    intro c text
    by_cases mark : c = '\x22'
    · subst mark
      exact ⟨_, spells_basicRest_letter _ _ rfl, rfl⟩
    · cases found : escape? false c with
      | some code =>
        -- The escape is a letter or a code point, and either spells the character.
        refine ⟨code, .of_escape spells_basicRest_letter spells_basicRest_point found, ?_⟩
        rw [escaped, if_neg mark, found]
      | none =>
        obtain ⟨noEscape, _, plain | ⟨several, _⟩⟩ := escape?_eq_none found
        · refine ⟨[c], spells_basicRest_self mark noEscape plain, ?_⟩
          rw [escaped, if_neg mark, found]
          rfl
        · cases several
  -- The codes are read one after the other, up to the closing mark.
  induction text with
  | nil => rfl
  | cons c text ih =>
    obtain ⟨code, spells, same⟩ := spelled c text
    rw [same, List.append_assoc, spells, ih]
    rfl

/-- A text of plain characters is read without escapes up to its closing mark. -/
theorem literalRest_append {text : Text} (plain : ∀ c ∈ text, isPlain c ∧ c ≠ '\x27') (rest : Text) :
    literalRest (text ++ '\x27' :: rest) = some (text, rest) := by
  induction text with
  | nil => rfl
  | cons c text ih =>
    -- A plain character is kept, and it is not the mark that would end the text.
    obtain ⟨⟨isPlain, noMark⟩, others⟩ := List.forall_mem_cons.1 plain
    rw [List.cons_append, literalRest, if_pos isPlain, ih others]
    · rfl
    · exact noMark

end OneLine

section SeveralLines

variable {reader : Text → Option (Text × Text)} {mark : Char} {marks : Nat} {code text rest tail : Text}

/-- A reader of a text on several lines, which ends at three marks and keeps fewer of them. -/
structure EndsAt (reader : Text → Option (Text × Text)) (mark : Char) : Prop where
  /-- Three marks end the text, with those right behind them. -/
  closes : ∀ rest, reader (mark :: mark :: mark :: rest) = some (closingMarks mark rest)
  /-- A mark that is not followed by two others belongs to the text. -/
  keeps : ∀ tail, (∀ rest, tail ≠ mark :: mark :: rest) → reader (mark :: tail) = (reader tail).map (prepend mark)

/-- A writing of a text with at most two marks in a row, the given number of them right before it. -/
inductive Marked (reader : Text → Option (Text × Text)) (mark : Char) : Nat → Text → Text → Prop
  /-- The text is over. -/
  | nil {marks : Nat} (few : marks ≤ 2) : Marked reader mark marks [] []
  /-- One more mark. -/
  | mark {marks : Nat} {code text : Text} (further : Marked reader mark (marks + 1) code text) :
    Marked reader mark marks (mark :: code) (mark :: text)
  /-- Another character. -/
  | other {marks : Nat} {first code text : Text} {c : Char} (few : marks ≤ 2)
    (spells : Spells reader first c) (apart : ∀ tail, (first ++ tail).head? ≠ some mark)
    (further : Marked reader mark 0 code text) : Marked reader mark marks (first ++ code) (c :: text)

/-- Up to two marks behind the closing ones belong to the text. -/
theorem closingMarks_append (few : marks ≤ 2) (apart : rest.head? ≠ some mark) :
    closingMarks mark (List.replicate marks mark ++ rest) = (List.replicate marks mark, rest) := by
  -- The three numbers of marks are gone through; what follows them is another character.
  obtain rfl | rfl | rfl : marks = 0 ∨ marks = 1 ∨ marks = 2 := by omega
  · match rest with
    | [] => rfl
    | [a] => simp_all [closingMarks]
    | a :: b :: rest => simp_all [closingMarks]
  · match rest with
    | [] => simp [closingMarks]
    | a :: rest => simp_all [closingMarks]
  · simp [closingMarks]

/-- Up to two marks before something else belong to the text. -/
theorem EndsAt.read_marks (ends : EndsAt reader mark) (few : marks ≤ 2) (apart : tail.head? ≠ some mark) :
    reader (List.replicate marks mark ++ tail) =
      (reader tail).map fun (text, rest) => (List.replicate marks mark ++ text, rest) := by
  -- A mark is kept where no two others follow it, and this is used once for each of them.
  have first := ends.keeps tail fun rest same => apart (by simp [same])
  obtain rfl | rfl | rfl : marks = 0 ∨ marks = 1 ∨ marks = 2 := by omega
  · simp
  · exact first
  · have second := ends.keeps (mark :: tail) fun rest same => apart (by simp [(List.cons.inj same).2])
    rw [List.replicate_succ, List.cons_append, List.replicate_one, List.singleton_append, second, first,
      Option.map_map]
    rfl

/-- A writing with few marks in a row is read up to the closing marks. -/
theorem EndsAt.read_marked (ends : EndsAt reader mark) (apart : rest.head? ≠ some mark)
    (marked : Marked reader mark marks code text) :
    reader (List.replicate marks mark ++ (code ++ mark :: mark :: mark :: rest)) =
      some (List.replicate marks mark ++ text, rest) := by
  induction marked with
  | @nil marks few =>
    -- The first three marks close the text, and as many as stood before the closing ones are left behind them.
    have swap : List.replicate marks mark ++ ([] ++ mark :: mark :: mark :: rest) =
        mark :: mark :: mark :: (List.replicate marks mark ++ rest) := by
      obtain rfl | rfl | rfl : marks = 0 ∨ marks = 1 ∨ marks = 2 := by omega
      all_goals rfl
    rw [swap, ends.closes, closingMarks_append few apart, List.append_nil]
  | @mark marks code text _ ih =>
    rw [List.replicate_succ'] at ih
    simpa using ih
  | other few spells noMark _ ih =>
    rw [List.append_assoc, ends.read_marks few (noMark _), spells]
    simp only [List.replicate_zero, List.nil_append] at ih
    rw [ih]
    rfl

end SeveralLines

section SeveralLinesWithEscapes

variable {c : Char}

/-- On several lines a backslash and a letter are read as the character that the letter stands for. -/
theorem spells_multiBasicRest_letter (letter c : Char) (short : shortEscape? letter = some c) :
    Spells (multiBasicRest false) ['\\', letter] c := by
  obtain ⟨noPoint, noLongPoint, noBreak, noReturn, noSpace⟩ := shortEscape?_eq_some short
  intro tail
  -- The letter is no blank, so the backslash does not end its line.
  have inLine : endsLine (letter :: tail) = false := by
    rw [endsLine, List.dropWhile_cons_of_neg (by simp [noSpace])]
    split <;> simp_all
  rw [List.cons_append, List.cons_append, List.nil_append, multiBasicRest, inLine, short]
  · cases multiBasicRest false tail with
    | none => rfl
    | some reading => rfl
  · simp_all
  · simp_all

/-- On several lines a code point is read as its character. -/
theorem spells_multiBasicRest_point (c : Char) (known : codePoint? (hexCode c) = some c) :
    Spells (multiBasicRest false) ('\\' :: 'u' :: hexCode c) c := by
  intro tail
  rw [hexCode] at known
  -- The four digits are read together, and then the rest is.
  simp only [hexCode, List.cons_append, List.nil_append, multiBasicRest, known]
  cases multiBasicRest false tail with
  | none => rfl
  | some reading => rfl

/-- On several lines a plain character or a line break is read as itself. -/
theorem spells_multiBasicRest_self (noMark : c ≠ '\x22') (noEscape : c ≠ '\\') (noReturn : c ≠ '\r')
    (plain : isPlain c ∨ c = '\n') : Spells (multiBasicRest false) [c] c := by
  intro tail
  rw [List.singleton_append, multiBasicRest, Bool.false_and, if_neg (by simp), if_pos (by simpa using plain)]
  all_goals simp_all

/-- A string on several lines with escapes ends at three quotation marks. -/
theorem endsAt_multiBasicRest : EndsAt (multiBasicRest false) '\x22' := by
  constructor
  -- Three marks end the string; fewer of them are kept as they are.
  · intro rest
    rw [multiBasicRest]
  · intro tail few
    rw [multiBasicRest, Bool.false_and, if_neg (by simp), if_pos (by decide)]
    all_goals simp_all

/-- A text with escapes never has three quotation marks in a row. -/
theorem marked_escaped (text : Text) (marks : Nat) (few : marks ≤ 2) :
    Marked (multiBasicRest false) '\x22' marks (escaped true marks text) text := by
  induction text generalizing marks with
  | nil => exact .nil few
  | cons c text ih =>
    by_cases mark : c = '\x22'
    · subst mark
      rw [escaped, if_pos rfl, if_pos rfl]
      -- A third mark in a row is escaped, and the row starts anew behind it.
      split_ifs with several
      · exact .other few (spells_multiBasicRest_letter _ _ rfl) (by simp) (ih 0 (by omega))
      · exact .mark (ih (marks + 1) (by omega))
    · cases found : escape? true c with
      | some code =>
        rw [escaped, if_neg mark, found]
        have spells := Spells.of_escape spells_multiBasicRest_letter spells_multiBasicRest_point found
        -- A code starts with a backslash, and so does not lengthen the row of marks.
        refine .other few spells ?_ (ih 0 (by omega))
        rcases escape?_eq_some found with ⟨letter, rfl, _⟩ | ⟨rfl, _⟩ <;> simp
      | none =>
        rw [escaped, if_neg mark, found]
        obtain ⟨noEscape, noReturn, plain⟩ := escape?_eq_none found
        have spells := spells_multiBasicRest_self mark noEscape noReturn (plain.imp id And.right)
        exact .other few spells (by simp [mark]) (ih 0 (by omega))

end SeveralLinesWithEscapes

section SeveralLinesAsTheyAre

variable {c : Char} {text : Text}

/-- A string on several lines without escapes ends at three apostrophes. -/
theorem endsAt_multiLiteralRest : EndsAt multiLiteralRest '\x27' := by
  constructor
  -- Three marks end the string; fewer of them are kept as they are.
  · intro rest
    rw [multiLiteralRest]
  · intro tail few
    rw [multiLiteralRest, if_pos (by decide)]
    all_goals simp_all

/-- Without escapes a plain character or a line break is read as itself. -/
theorem spells_multiLiteralRest_self (noMark : c ≠ '\x27') (noReturn : c ≠ '\r') (plain : isPlain c ∨ c = '\n') :
    Spells multiLiteralRest [c] c := by
  intro tail
  rw [List.singleton_append, multiLiteralRest, if_pos (by simpa using plain)]
  all_goals simp_all

/-- The longest run is no shorter than one that was seen before. -/
theorem le_longestRun (c : Char) (current longest : Nat) (text : Text) :
    longest ≤ longestRun c current longest text := by
  induction text generalizing current longest with
  | nil => exact Nat.le_refl _
  | cons d text ih =>
    rw [longestRun]
    -- A longer run only raises the maximum, and another character does not touch it.
    split
    · exact Nat.le_trans (Nat.le_max_left ..) (ih _ _)
    · exact ih _ _

/-- A text with no run of three apostrophes can be written as it is. -/
theorem marked_self {longest marks : Nat} (plain : ∀ c ∈ text, isPlain c ∨ c = '\n') (few : marks ≤ 2)
    (short : longestRun '\x27' marks longest text ≤ 2) : Marked multiLiteralRest '\x27' marks text text := by
  induction text generalizing marks longest with
  | nil => exact .nil few
  | cons c text ih =>
    obtain ⟨isPlain, others⟩ := List.forall_mem_cons.1 plain
    rw [longestRun] at short
    -- A mark makes the run longer, and any other character ends it.
    split at short
    · rename_i mark
      subst mark
      have bound := le_longestRun '\x27' (marks + 1) (max longest (marks + 1)) text
      exact .mark (ih others (by omega) short)
    · rename_i noMark
      have noReturn : c ≠ '\r' := by
        rintro rfl
        simp [Toml.isPlain] at isPlain
      exact .other few (spells_multiLiteralRest_self noMark noReturn isPlain) (by simp [noMark])
        (ih others (by omega) short)

end SeveralLinesAsTheyAre

section Kinds

variable {text code rest : Text}

/-- A character that is no control character is plain, or a line break. -/
theorem isPlain_of_not_control {c : Char} (printable : isControl c = false) : isPlain c ∨ c = '\n' := by
  simp only [isControl, isPlain, Bool.or_eq_false_iff, Bool.and_eq_false_iff, Bool.or_eq_true, Bool.and_eq_true,
    decide_eq_false_iff_not, decide_eq_true_eq] at printable ⊢
  -- Line feeds and tabs are let through on their own, and all others have a number past the controls.
  by_cases newline : c = '\n'
  · exact .inr newline
  · by_cases tab : c = '\t'
    · exact .inl (.inl tab)
    · refine .inl (.inr ?_)
      simp [newline, tab] at printable
      omega

/-- A character of which there is no run does not occur. -/
theorem not_mem_of_longestRun {c : Char} {current : Nat} (missing : longestRun c current 0 text = 0) : c ∉ text := by
  induction text generalizing current with
  | nil => exact List.not_mem_nil
  | cons d text ih =>
    rw [longestRun] at missing
    -- An occurrence would be a run of at least one.
    split at missing
    · have bound := le_longestRun c (current + 1) (max 0 (current + 1)) text
      omega
    · rename_i differ
      exact List.not_mem_cons_of_ne_of_not_mem (Ne.symm differ) (ih missing)

/-- A text is left as it is only if it needs no escapes and its marks do not end it. -/
theorem choose_spec (text : Text) :
    match Style.choose text with
    | .literal => (∀ c ∈ text, isControl c = false) ∧ '\n' ∉ text ∧ longestRun '\x27' 0 0 text = 0
    | .multiLiteral => (∀ c ∈ text, isControl c = false) ∧ longestRun '\x27' 0 0 text ≤ 2
    | _ => True := by
  unfold Style.choose
  simp only
  split_ifs <;> simp_all

/-- The line break put in front of a text that has one is passed over, and nothing else is. -/
theorem dropLineBreak_leadingBreak {mark : Char} (noBreak : mark ≠ '\n') (noReturn : mark ≠ '\r')
    (starts : ∀ c, code.head? = some c → c ≠ '\r' ∧ (c = '\n' → '\n' ∈ text)) :
    dropLineBreak (leadingBreak text ++ (code ++ mark :: rest)) = code ++ mark :: rest := by
  unfold leadingBreak
  -- Either a line feed was put in front, or the text is on one line and starts with none.
  split
  · rfl
  · rename_i whole
    cases code with
    | nil =>
      unfold dropLineBreak
      split <;> simp_all
    | cons c code =>
      obtain ⟨other, onlyWithin⟩ := starts c rfl
      unfold dropLineBreak
      split <;> simp_all

/-- A text with escapes starts with a backslash, a mark that is allowed or a character without an escape. -/
theorem head?_escaped {multi : Bool} {c : Char} (starts : (escaped multi 0 text).head? = some c) :
    c = '\\' ∨ c = '\x22' ∧ multi ∨ c ≠ '\x22' ∧ c ∈ text ∧ escape? multi c = none := by
  cases text with
  | nil => cases starts
  | cons first text =>
    -- A mark is kept on several lines and escaped on one; all else goes by its escape.
    by_cases mark : first = '\x22'
    · subst mark
      cases multi with
      | false => exact .inl (Option.some.inj starts).symm
      | true => exact .inr (.inl ⟨(Option.some.inj starts).symm, rfl⟩)
    · cases found : escape? multi first with
      | some code =>
        rw [escaped, if_neg mark, found] at starts
        rcases escape?_eq_some found with ⟨letter, rfl, _⟩ | ⟨rfl, _⟩
        all_goals exact .inl (Option.some.inj starts).symm
      | none =>
        rw [escaped, if_neg mark, found] at starts
        cases starts
        exact .inr (.inr ⟨mark, by simp, found⟩)

/-- A text written on one line with escapes is read back. -/
theorem string?_basic (text : Text) (apart : rest.head? ≠ some '\x22') :
    string? ('\x22' :: (escaped false 0 text ++ '\x22' :: rest)) = some (text, rest) := by
  have starts : (escaped false 0 text).head? ≠ some '\x22' := by
    intro mark
    simpa using head?_escaped mark
  rw [string?, basicRest_escaped]
  -- Three marks would be those of an empty text and one that follows it.
  intro tail same
  cases shape : escaped false 0 text with
  | nil => simp_all
  | cons c more => simp_all

/-- A text written on one line without escapes is read back. -/
theorem string?_literal (chosen : Style.choose text = .literal) (apart : rest.head? ≠ some '\x27') :
    string? ('\x27' :: (text ++ '\x27' :: rest)) = some (text, rest) := by
  have spec := choose_spec text
  rw [chosen] at spec
  obtain ⟨printable, whole, noRun⟩ := spec
  have noMark := not_mem_of_longestRun noRun
  -- This style is chosen for texts without control characters, line breaks and apostrophes only.
  have plain : ∀ c ∈ text, isPlain c ∧ c ≠ '\x27' := by
    intro c member
    refine ⟨(isPlain_of_not_control (printable c member)).resolve_right ?_, ?_⟩
    · rintro rfl
      exact whole member
    · rintro rfl
      exact noMark member
  rw [string?, literalRest_append plain]
  -- No second apostrophe follows the first, so this is not a string on several lines.
  intro tail same
  cases text with
  | nil => simp_all
  | cons c more => simp_all

/-- A text written on several lines with escapes is read back. -/
theorem string?_multiBasic (text : Text) (apart : rest.head? ≠ some '\x22') :
    string? ('\x22' :: '\x22' :: '\x22' ::
      (leadingBreak text ++ (escaped true 0 text ++ '\x22' :: '\x22' :: '\x22' :: rest))) = some (text, rest) := by
  rw [string?, dropLineBreak_leadingBreak (by decide) (by decide)]
  · exact endsAt_multiBasicRest.read_marked apart (marked_escaped text 0 (by omega))
  -- The escaped text starts with no carriage return, and with a line feed only if it has one.
  · intro c starts
    rcases head?_escaped starts with rfl | ⟨rfl, _⟩ | ⟨_, member, noEscape⟩
    · simp
    · simp
    · exact ⟨(escape?_eq_none noEscape).2.1, fun newline => newline ▸ member⟩

/-- A text written on several lines without escapes is read back. -/
theorem string?_multiLiteral (chosen : Style.choose text = .multiLiteral) (apart : rest.head? ≠ some '\x27') :
    string? ('\x27' :: '\x27' :: '\x27' ::
      (leadingBreak text ++ (text ++ '\x27' :: '\x27' :: '\x27' :: rest))) = some (text, rest) := by
  have spec := choose_spec text
  rw [chosen] at spec
  obtain ⟨printable, few⟩ := spec
  -- This style is chosen for texts without control characters only, line breaks apart.
  have plain : ∀ c ∈ text, isPlain c ∨ c = '\n' := fun c member => isPlain_of_not_control (printable c member)
  rw [string?, dropLineBreak_leadingBreak (by decide) (by decide)]
  · exact endsAt_multiLiteralRest.read_marked apart (marked_self plain (by omega) few)
  · intro c starts
    have member := List.mem_of_mem_head? starts
    refine ⟨?_, fun newline => newline ▸ member⟩
    rintro rfl
    simpa [isPlain] using plain _ member

/-- A quoted text is read back, and what follows it is left. -/
theorem string?_quoted (text : Text) (noDouble : rest.head? ≠ some '\x22') (noSingle : rest.head? ≠ some '\x27') :
    string? (quoted text ++ rest) = some (text, rest) := by
  unfold quoted
  -- Each style has a reader of its own.
  cases chosen : Style.choose text with
  | basic => simpa using string?_basic text noDouble
  | literal => simpa using string?_literal chosen noSingle
  | multiBasic => simpa using string?_multiBasic text noDouble
  | multiLiteral => simpa using string?_multiLiteral chosen noSingle

end Kinds

end CallersFirst.Toml
