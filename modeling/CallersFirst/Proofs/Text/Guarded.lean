import CallersFirst.Arrangement
import CallersFirst.Proofs.Text.Significant
import CallersFirst.Proofs.Text.Slice
import Mathlib.Data.List.TakeWhile

/-! Looking around in a text by byte offsets, where an offset out of place would make the step fail. -/

namespace CallersFirst

namespace Guarded

/-- A difference, which must not fall below zero. -/
def minus (larger smaller : Nat) : Option Nat :=
  if smaller ≤ larger then some (larger - smaller) else none

/-- The part of a text before an offset, which must be a boundary. -/
def upTo (text : Text) (offset : Nat) : Option Text :=
  (text.cut? offset).map (·.1)

/-- The part of a text from an offset on, which must be a boundary. -/
def onward (text : Text) (offset : Nat) : Option Text :=
  (text.cut? offset).map (·.2)

/-- The bytes of a text. -/
def bytes (text : Text) : List UInt8 :=
  text.flatMap String.utf8EncodeChar

/-- The offset of the first occurrence of a pattern that is not empty. -/
def find? (pattern : Text) : Text → Option Nat
  | [] => none
  | c :: rest =>
    if pattern.isPrefixOf (c :: rest) then some 0 else (find? pattern rest).map (c.utf8Size + ·)

/-- The offset of the last occurrence of a character. -/
def findLast? (wanted : Char) : Text → Option Nat
  | [] => none
  | c :: rest =>
    match findLast? wanted rest with
    | some offset => some (c.utf8Size + offset)
    | none => if c = wanted then some 0 else none

/-- Whether the first line feed from an offset on, or else of the whole text, has a carriage return as
the byte before it. -/
def usesCrlf (text : Text) (offset : Nat) : Option Bool := do
  let rest ← onward text offset
  match ((find? ['\n'] rest).map (offset + ·)).or (find? ['\n'] text) with
  | none => return false
  | some lineFeed =>
    if lineFeed = 0 then return false
    else
      let byte ← (bytes text)[← minus lineFeed 1]?
      return byte = 13

/-- What stands between the start of a line and an offset on it, if that is spaces and tabs only. -/
def indentation (text : Text) (offset : Nat) : Option Text := do
  let before ← upTo text offset
  let lineStart := ((findLast? '\n' before).map (· + 1)).getD 0
  let lead ← text.slice? lineStart offset
  return if lead.all fun c => c = ' ' || c = '\t' then lead else []

/-- An empty line in the manner of the text at an offset. -/
def separator (text : Text) (offset : Nat) : Option Text := do
  let lineBreak := if ← usesCrlf text offset then ['\r', '\n'] else ['\n']
  return lineBreak ++ lineBreak ++ (← indentation text offset)

/-- What follows a number of bytes behind the start of a pattern, if the pattern occurs at all. -/
def behind (pattern : Text) (past : Nat) (text : Text) : Option (Option Text) :=
  match find? pattern text with
  | none => some none
  | some offset => (onward text (offset + past)).map some

/-- What follows a pattern is no longer than the text. -/
theorem length_of_behind {pattern text rest : Text} {past : Nat}
    (found : behind pattern past text = some (some rest)) : rest.length ≤ text.length := by
  unfold behind at found
  split at found
  · cases found
  · -- The text is cut in two, and the rest is the second part.
    obtain ⟨after, goesOn, same⟩ := Option.map_eq_some_iff.1 found
    obtain ⟨⟨before, _⟩, cut, rfl⟩ := Option.map_eq_some_iff.1 goesOn
    cases same
    rw [(Text.cut?_eq_some_iff.1 cut).1]
    simp

/-- What follows the two characters that open a comment is shorter than the text. -/
theorem length_of_trimStart {text rest : Text} {first second : Char}
    (trimmed : text.trimStart = first :: second :: rest) : rest.length < text.length := by
  have shorter : text.trimStart.length ≤ text.length := (List.dropWhile_suffix isBlank).length_le
  rw [trimmed, List.length_cons, List.length_cons] at shorter
  omega

/-- The first character of a text outside of blanks and comments, which are skipped by offsets. -/
def nextSignificant (text : Text) : Option (Option Char) :=
  match _trimmed : text.trimStart with
  | '/' :: '/' :: line =>
    -- The text goes on with the line feed.
    match _found : behind ['\n'] 0 line with
    | none => none
    | some none => some none
    | some (some rest) => nextSignificant rest
  | '/' :: '*' :: block =>
    match _found : behind ['*', '/'] 2 block with
    | none => none
    | some none => some none
    | some (some rest) => nextSignificant rest
  | rest => some rest.head?
termination_by text.length
decreasing_by
  all_goals exact Nat.lt_of_le_of_lt (length_of_behind _found) (length_of_trimStart _trimmed)

section Offsets

variable {text before after : Text} {offset : Nat}

/-- Before the offset behind a first part stands that part. -/
theorem upTo_append (before after : Text) : upTo (before ++ after) before.byteSize = some before := by
  rw [upTo, Text.cut?_eq_some_iff.2 ⟨rfl, rfl⟩, Option.map_some]

/-- From the offset behind a first part on stands the rest. -/
theorem onward_append (before after : Text) : onward (before ++ after) before.byteSize = some after := by
  rw [onward, Text.cut?_eq_some_iff.2 ⟨rfl, rfl⟩, Option.map_some]

/-- Taking off no more than there is does not fail. -/
theorem minus_of_le {larger smaller : Nat} (le : smaller ≤ larger) :
    minus larger smaller = some (larger - smaller) := if_pos le

/-- A character is missing, or its first occurrence is found. -/
theorem find?_cases (c : Char) (text : Text) :
    find? [c] text = none ∧ c ∉ text ∨
      ∃ front back, text = front ++ c :: back ∧ c ∉ front ∧ find? [c] text = some front.byteSize := by
  induction text with
  | nil => exact .inl ⟨rfl, by simp⟩
  | cons d rest ih =>
    -- The character stands first, or the search goes on by the size of the one that does.
    by_cases same : c = d
    · exact .inr ⟨[], rest, by simp [same], by simp, by simp [find?, same, List.isPrefixOf]⟩
    · have passed : find? [c] (d :: rest) = (find? [c] rest).map (d.utf8Size + ·) := by
        simp [find?, same, List.isPrefixOf]
      rw [passed]
      rcases ih with ⟨missing, outside⟩ | ⟨front, back, rfl, outside, found⟩
      · exact .inl ⟨by rw [missing, Option.map_none], by simp [same, outside]⟩
      · exact .inr ⟨d :: front, back, rfl, by simp [same, outside], by rw [found]; rfl⟩

/-- A character is missing, or its last occurrence is found. -/
theorem findLast?_cases (c : Char) (text : Text) :
    findLast? c text = none ∧ c ∉ text ∨
      ∃ front back, text = front ++ c :: back ∧ c ∉ back ∧ findLast? c text = some front.byteSize := by
  induction text with
  | nil => exact .inl ⟨rfl, by simp⟩
  | cons d rest ih =>
    rw [findLast?]
    rcases ih with ⟨missing, outside⟩ | ⟨front, back, rfl, outside, found⟩
    · -- With no occurrence further on, the first character decides.
      rw [missing]
      by_cases same : c = d
      · exact .inr ⟨[], rest, by simp [same], outside, by simp [same]⟩
      · exact .inl ⟨by simp [Ne.symm same], by simp [same, outside]⟩
    · exact .inr ⟨d :: front, back, rfl, outside, by rw [found]; rfl⟩

/-- A text has as many bytes as its size says. -/
theorem length_bytes (text : Text) : (bytes text).length = text.byteSize := by
  induction text with
  | nil => rfl
  | cons c rest ih =>
    rw [bytes, List.flatMap_cons, List.length_append, String.length_utf8EncodeChar, ← bytes, ih,
      Text.byteSize_cons]

/-- Every character has a last byte, and only a carriage return has that of a carriage return. -/
theorem exists_getLast?_utf8EncodeChar (c : Char) :
    ∃ byte, (String.utf8EncodeChar c).getLast? = some byte ∧ (byte = 13 ↔ c = '\r') := by
  have isReturn : c = '\r' ↔ c.val.toNat = 13 :=
    ⟨fun same => by rw [same]; rfl, fun same => Char.toNat_inj.1 same⟩
  -- A byte is the carriage return exactly if its number is.
  have byteIs : ∀ n < 256, UInt8.ofNat n = 13 ↔ n = 13 := by
    intro n small
    rw [← UInt8.toNat_inj, UInt8.toNat_ofNat', Nat.mod_eq_of_lt small]
    rfl
  rw [isReturn]
  unfold String.utf8EncodeChar
  simp only
  split
  · exact ⟨_, rfl, byteIs _ (by omega)⟩
  · -- All but the first byte of a longer character are large.
    have large : UInt8.ofNat (c.val.toNat % 64 + 128) = 13 ↔ c.val.toNat = 13 := by
      rw [byteIs _ (by omega)]
      omega
    split
    · exact ⟨_, rfl, large⟩
    · split
      · exact ⟨_, rfl, large⟩
      · exact ⟨_, rfl, large⟩

/-- The byte before an offset is a carriage return exactly if the character before it is one. -/
theorem exists_byte_before {front : Text} (filled : front ≠ []) (back : Text) :
    ∃ byte, (bytes (front ++ back))[front.byteSize - 1]? = some byte ∧
      (byte = 13 ↔ front.getLast? = some '\r') := by
  obtain rfl | ⟨init, c, rfl⟩ := List.eq_nil_or_concat front
  · exact absurd rfl filled
  · obtain ⟨byte, isLast, isReturn⟩ := exists_getLast?_utf8EncodeChar c
    have positive := c.utf8Size_pos
    refine ⟨byte, ?_, by simpa using isReturn⟩
    -- The bytes of the last character start where those before it end.
    have parts : bytes (init.concat c ++ back) = bytes init ++ String.utf8EncodeChar c ++ bytes back := by
      simp [bytes]
    have size : Text.byteSize (init.concat c) - 1 = (bytes init).length + (c.utf8Size - 1) := by
      rw [length_bytes, List.concat_eq_append, Text.byteSize_append, Text.byteSize_cons, Text.byteSize_nil]
      omega
    rw [List.getLast?_eq_getElem?, String.length_utf8EncodeChar] at isLast
    rw [parts, size, List.append_assoc, List.getElem?_append_right (Nat.le_add_right _ _),
      Nat.add_sub_cancel_left, List.getElem?_append_left (by rw [String.length_utf8EncodeChar]; omega), isLast]

end Offsets

section Separator

variable {text : Text} {offset : Nat}

/-- The characters before the first line feed. -/
theorem takeWhile_eq_of_not_mem {front : Text} (outside : '\n' ∉ front) (back : Text) :
    (front ++ '\n' :: back).takeWhile (· ≠ '\n') = front := by
  rw [List.takeWhile_append_of_pos, List.takeWhile_cons_of_neg (by simp), List.append_nil]
  intro c member
  simp only [ne_eq, decide_eq_true_eq]
  rintro rfl
  exact outside member

/-- Reading the byte before a line feed tells whether a carriage return stands there. -/
theorem crlf_at (front back : Text) :
    (if front.byteSize = 0 then some false
      else do
        let byte ← (bytes (front ++ back))[← minus front.byteSize 1]?
        return decide (byte = 13)) = some (decide (front.getLast? = some '\r')) := by
  by_cases empty : front = []
  · simp [empty]
  · -- There is a byte before the line feed.
    have positive : front.byteSize ≠ 0 := fun none => empty (Text.byteSize_eq_zero.1 none)
    obtain ⟨byte, found, isReturn⟩ := exists_byte_before empty back
    rw [if_neg positive, minus_of_le (by omega)]
    simp [found, isReturn]

/-- At a boundary the question for the line ending does not fail. -/
theorem usesCrlf_eq (boundary : text.IsBoundary offset) : usesCrlf text offset = some (text.usesCrlf offset) := by
  obtain ⟨before, after, rfl, rfl⟩ := boundary
  rw [usesCrlf, onward_append, Text.usesCrlf, Text.cut?_eq_some_iff.2 ⟨rfl, rfl⟩]
  simp only [Option.bind_eq_bind, Option.bind_some, Option.getD_some]
  rcases find?_cases '\n' after with ⟨missing, outside⟩ | ⟨front, back, rfl, outside, found⟩
  · -- No line ends from the offset on, so that the first line of all decides.
    rw [missing, if_neg outside]
    rcases find?_cases '\n' (before ++ after) with ⟨none, nowhere⟩ | ⟨front, back, whole, outside, found⟩
    · simp [none, nowhere]
    · rw [found, whole, takeWhile_eq_of_not_mem outside]
      simpa using crlf_at front ('\n' :: back)
  · rw [found, if_pos (by simp)]
    simp only [takeWhile_eq_of_not_mem outside]
    simpa using crlf_at (before ++ front) ('\n' :: back)

/-- At a boundary the indentation is found without failing. -/
theorem indentation_eq (boundary : text.IsBoundary offset) :
    indentation text offset = some (text.indentation offset) := by
  obtain ⟨before, after, rfl, rfl⟩ := boundary
  rw [indentation, upTo_append, Text.indentation, Text.cut?_eq_some_iff.2 ⟨rfl, rfl⟩]
  simp only [Option.bind_eq_bind, Option.bind_some, Option.getD_some]
  -- The line starts at the start of the text or behind the last line feed before the offset.
  obtain ⟨front, lead, rfl, start, same⟩ : ∃ front lead, before = front ++ lead ∧
      ((findLast? '\n' before).map (· + 1)).getD 0 = front.byteSize ∧
      (before.reverse.takeWhile (· ≠ '\n')).reverse = lead := by
    rcases findLast?_cases '\n' before with ⟨missing, outside⟩ | ⟨front, back, rfl, outside, found⟩
    · refine ⟨[], before, rfl, by simp [missing], ?_⟩
      rw [List.takeWhile_eq_self_iff.2, List.reverse_reverse]
      intro c member
      simp only [ne_eq, decide_eq_true_eq]
      rintro rfl
      exact outside (List.mem_reverse.1 member)
    · refine ⟨front ++ ['\n'], back, by simp, by simp [found]; rfl, ?_⟩
      rw [List.reverse_append, List.reverse_cons, List.append_assoc, List.singleton_append,
        takeWhile_eq_of_not_mem (by simpa using outside), List.reverse_reverse]
  -- What lies between the start of the line and the offset is cut out.
  have slice : Text.slice? (front ++ lead ++ after) front.byteSize (Text.byteSize (front ++ lead)) = some lead :=
    Text.slice?_eq_some_iff.2 ⟨front, after, rfl, rfl, rfl⟩
  rw [start, same, slice]
  rfl

/-- At a boundary the separator is found without failing. -/
theorem separator_eq (boundary : text.IsBoundary offset) :
    separator text offset = some (text.separator offset) := by
  rw [separator, usesCrlf_eq boundary, indentation_eq boundary]
  rfl

end Separator

section Significant

/-- Leading blanks make no difference. -/
theorem nextSignificant_trimStart (text : Text) : text.trimStart.nextSignificant = text.nextSignificant := by
  induction text with
  | nil => rfl
  | cons c rest ih =>
    rw [Text.trimStart, List.dropWhile_cons]
    -- A blank is dropped and passed alike, and the first other character stops both.
    split
    · rename_i blank
      rw [← Text.trimStart, ih, Text.nextSignificant_cons_of_isBlank blank]
    · rfl

/-- A line comment is passed by its line feed. -/
theorem behind_lineComment (line : Text) :
    ∃ found, behind ['\n'] 0 line = some found ∧ line.afterLineComment = found.bind Text.nextSignificant := by
  -- Without a line feed nothing is found behind the comment, and otherwise the first one ends it.
  rcases find?_cases '\n' line with ⟨missing, outside⟩ | ⟨front, back, rfl, outside, found⟩
  · refine ⟨none, by rw [behind, missing], ?_⟩
    simpa [Text.afterLineComment] using Text.afterLineComment_append outside []
  · refine ⟨some ('\n' :: back), by rw [behind, found]; simp [onward_append], ?_⟩
    rw [Text.afterLineComment_append outside, Text.afterLineComment]
    exact (Text.nextSignificant_cons_of_isBlank (by decide) back).symm

/-- A block comment is passed by the two characters that close it. -/
theorem behind_blockComment (block : Text) :
    ∃ found, behind ['*', '/'] 2 block = some found ∧
      block.afterBlockComment = found.bind Text.nextSignificant := by
  -- The comment has no end, or both find the same one.
  have known : find? ['*', '/'] block = none ∧ block.afterBlockComment = none ∨
      ∃ front back, block = front ++ ['*', '/'] ++ back ∧ find? ['*', '/'] block = some front.byteSize ∧
        block.afterBlockComment = Text.nextSignificant back := by
    induction block with
    | nil => exact .inl ⟨rfl, rfl⟩
    | cons c rest ih =>
      by_cases ends : ['*', '/'] <+: c :: rest
      · obtain ⟨back, same⟩ := ends
        rw [← same]
        exact .inr ⟨[], back, rfl, rfl, by simp [Text.afterBlockComment]⟩
      -- Where the comment does not end here, it ends one character later or never.
      · have skipped : find? ['*', '/'] (c :: rest) = (find? ['*', '/'] rest).map (c.utf8Size + ·) :=
          if_neg (by rwa [List.isPrefixOf_iff_prefix])
        rw [Text.afterBlockComment_cons ends, skipped]
        rcases ih with ⟨missing, nothing⟩ | ⟨front, back, rfl, found, next⟩
        · exact .inl ⟨by rw [missing, Option.map_none], nothing⟩
        · exact .inr ⟨c :: front, back, by simp, by rw [found]; rfl, next⟩
  rcases known with ⟨missing, nothing⟩ | ⟨front, back, rfl, found, next⟩
  · exact ⟨none, by rw [behind, missing], nothing⟩
  · have size : front.byteSize + 2 = Text.byteSize (front ++ ['*', '/']) := by
      rw [Text.byteSize_append]
      rfl
    refine ⟨some back, ?_, next⟩
    rw [behind, found]
    simp only [size, onward_append, Option.map_some]

/-- Skipping blanks and comments by offsets never fails, and finds the same character. -/
theorem nextSignificant_eq (text : Text) : nextSignificant text = some text.nextSignificant := by
  rw [← nextSignificant_trimStart]
  -- A line comment and a block comment each have three cases: none is missed, none is left, or the rest goes on.
  fun_induction nextSignificant text with
  | case1 text line trimmed misplaced =>
    obtain ⟨found, same, _⟩ := behind_lineComment line
    simp [misplaced] at same
  | case2 text line trimmed missing =>
    obtain ⟨found, same, next⟩ := behind_lineComment line
    rw [missing, Option.some.injEq] at same
    rw [trimmed, Text.nextSignificant, next, ← same, Option.bind_none]
  | case3 text line trimmed rest goesOn ih =>
    obtain ⟨found, same, next⟩ := behind_lineComment line
    rw [goesOn, Option.some.injEq] at same
    rw [ih, trimmed, Text.nextSignificant, next, ← same, nextSignificant_trimStart, Option.bind_some]
  | case4 text block trimmed misplaced =>
    obtain ⟨found, same, _⟩ := behind_blockComment block
    simp [misplaced] at same
  | case5 text block trimmed missing =>
    obtain ⟨found, same, next⟩ := behind_blockComment block
    rw [missing, Option.some.injEq] at same
    rw [trimmed, Text.nextSignificant, next, ← same, Option.bind_none]
  | case6 text block trimmed rest goesOn ih =>
    obtain ⟨found, same, next⟩ := behind_blockComment block
    rw [goesOn, Option.some.injEq] at same
    rw [ih, trimmed, Text.nextSignificant, next, ← same, nextSignificant_trimStart, Option.bind_some]
  | case7 text noLine noBlock =>
    -- Behind the blanks stands no comment, so that the first character is the one.
    have visible := List.head?_dropWhile_not isBlank text
    rw [← Text.trimStart] at visible
    cases shape : text.trimStart with
    | nil => rfl
    | cons c rest =>
      rw [shape, List.head?_cons] at visible
      rw [Text.nextSignificant, if_neg (by simpa using visible), List.head?_cons]
      · rintro line rfl rfl
        exact noLine line shape
      · rintro block rfl rfl
        exact noBlock block shape

end Significant

end Guarded

end CallersFirst
