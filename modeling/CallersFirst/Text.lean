import CallersFirst.Text.Blank

/-! Source text as a list of characters whose positions are counted in UTF-8 bytes. -/

namespace CallersFirst

/-- A source text, one character at a time. -/
abbrev Text := List Char

namespace Text

/-- The number of bytes a text takes in UTF-8. -/
def byteSize (text : Text) : Nat :=
  text.foldr (fun c size => c.utf8Size + size) 0

/-- Moves characters from the text to the part already passed until the offset is used up. -/
def cutFrom (passed : Text) : Text → Nat → Option (Text × Text)
  | text, 0 => some (passed.reverse, text)
  | [], _ + 1 => none
  | c :: rest, offset + 1 =>
    -- An offset inside a character is no place to cut.
    if c.utf8Size ≤ offset + 1 then cutFrom (c :: passed) rest (offset + 1 - c.utf8Size) else none

/-- The parts of a text before and after a byte offset, if the offset is a character boundary. -/
def cut? (text : Text) (offset : Nat) : Option (Text × Text) :=
  cutFrom [] text offset

/-- The part of a text between two byte offsets, if they are ordered character boundaries. -/
def slice? (text : Text) (start stop : Nat) : Option Text := do
  let (before, _) ← cut? text stop
  let (_, between) ← cut? before start
  return between

/-- The part of a text between two byte offsets, empty where there is no such part. -/
def slice (text : Text) (start stop : Nat) : Text :=
  (slice? text start stop).getD []

/-- Counts line feeds on top of a running count until the byte offset is used up. -/
def breaksFrom (count : Nat) : Text → Nat → Nat
  | [], _ => count
  | _, 0 => count
  | c :: rest, offset + 1 =>
    breaksFrom (if c = '\n' then count + 1 else count) rest (offset + 1 - c.utf8Size)

/-- The number of line feeds that start before a byte offset. -/
def row (text : Text) (offset : Nat) : Nat :=
  breaksFrom 0 text offset

/-- The line number of a byte offset, counted from one. -/
def lineOf (text : Text) (offset : Nat) : Nat :=
  row text offset + 1

/-- A text without its leading blanks. -/
def trimStart (text : Text) : Text :=
  text.dropWhile isBlank

/-- A text without its trailing blanks. -/
def trimEnd (text : Text) : Text :=
  (text.reverse.dropWhile isBlank).reverse

/-- Whether a text holds nothing but blanks. -/
def isBlankText (text : Text) : Bool :=
  text.all isBlank

/-- The parts of a text between the occurrences of a separator. -/
def splitAt (separator : Char) : Text → List Text
  | [] => [[]]
  | c :: rest =>
    if c = separator then [] :: splitAt separator rest
    else
      match splitAt separator rest with
      | [] => [[c]]
      | first :: others => (c :: first) :: others

/-- The empty text has no bytes. -/
@[simp] theorem byteSize_nil : byteSize [] = 0 := rfl

/-- A text's bytes are those of its first character and of its rest. -/
@[simp] theorem byteSize_cons (c : Char) (rest : Text) :
    byteSize (c :: rest) = c.utf8Size + byteSize rest := rfl

/-- Joining two texts adds their sizes. -/
@[simp] theorem byteSize_append (left right : Text) :
    byteSize (left ++ right) = byteSize left + byteSize right := by
  -- The sizes of the left characters are added one by one to those of the right text.
  induction left with
  | nil => simp
  | cons c rest ih => simp [ih, Nat.add_assoc]

/-- A text without bytes is empty. -/
theorem byteSize_eq_zero {text : Text} : byteSize text = 0 ↔ text = [] := by
  -- Every character takes at least one byte.
  cases text with
  | nil => simp
  | cons c rest =>
    have := c.utf8Size_pos
    simp
    omega

/-- Cutting on from a passed part finds exactly the splits of the remaining text at the offset. -/
theorem cutFrom_eq_some_iff {passed text : Text} {offset : Nat} {before after : Text} :
    cutFrom passed text offset = some (before, after) ↔
      ∃ taken, before = passed.reverse ++ taken ∧ text = taken ++ after ∧ byteSize taken = offset := by
  -- Each character either fits into what is left of the offset or lies across it.
  induction text generalizing passed offset with
  | nil =>
    cases offset with
    | zero =>
      simp only [cutFrom, Option.some.injEq, Prod.mk.injEq]
      constructor
      · rintro ⟨rfl, rfl⟩
        exact ⟨[], by simp⟩
      · rintro ⟨taken, rfl, joined, _⟩
        obtain ⟨rfl, rfl⟩ := List.nil_eq_append_iff.1 joined
        simp
    | succ offset =>
      simp only [cutFrom, reduceCtorEq, false_iff, not_exists]
      rintro taken ⟨_, joined, size⟩
      obtain ⟨rfl, _⟩ := List.nil_eq_append_iff.1 joined
      simp at size
  | cons c rest ih =>
    have positive := c.utf8Size_pos
    cases offset with
    | zero =>
      simp only [cutFrom, Option.some.injEq, Prod.mk.injEq]
      constructor
      · rintro ⟨rfl, rfl⟩
        exact ⟨[], by simp⟩
      · rintro ⟨taken, rfl, joined, size⟩
        rw [byteSize_eq_zero] at size
        simp_all
    | succ offset =>
      rw [cutFrom]
      split
      next fits =>
        rw [ih]
        constructor
        · rintro ⟨taken, rfl, rfl, size⟩
          exact ⟨c :: taken, by simp, by simp, by simp only [byteSize_cons]; omega⟩
        · rintro ⟨taken, rfl, joined, size⟩
          cases taken with
          | nil => simp at size
          | cons first taken =>
            obtain ⟨rfl, rfl⟩ := List.cons.inj joined
            simp only [byteSize_cons] at size
            exact ⟨taken, by simp, rfl, by omega⟩
      next across =>
        simp only [reduceCtorEq, false_iff, not_exists]
        rintro taken ⟨_, joined, size⟩
        cases taken with
        | nil => simp at size
        | cons first taken =>
          obtain ⟨rfl, rfl⟩ := List.cons.inj joined
          simp only [byteSize_cons] at size
          omega

/-- A cut at an offset is a split of the text whose first part has that many bytes. -/
theorem cut?_eq_some_iff {text : Text} {offset : Nat} {before after : Text} :
    cut? text offset = some (before, after) ↔ text = before ++ after ∧ byteSize before = offset := by
  -- Nothing has been passed at the start, so what is taken is the first part.
  rw [cut?, cutFrom_eq_some_iff]
  constructor
  · rintro ⟨taken, rfl, joined, size⟩
    exact ⟨by simpa using joined, by simpa using size⟩
  · rintro ⟨joined, size⟩
    exact ⟨before, by simp, joined, size⟩

/-- A slice is a part of the text with the right number of bytes before it and up to its end. -/
theorem slice?_eq_some_iff {text between : Text} {start stop : Nat} :
    slice? text start stop = some between ↔
      ∃ before after, text = before ++ between ++ after ∧ byteSize before = start ∧
        byteSize (before ++ between) = stop := by
  -- The second cut splits what the first one left before the end.
  simp only [slice?, Option.bind_eq_bind, Option.bind_eq_some_iff, Prod.exists, Option.pure_def,
    Option.some.injEq, cut?_eq_some_iff]
  constructor
  · rintro ⟨_, after, ⟨rfl, size⟩, before, _, ⟨rfl, start_size⟩, rfl⟩
    exact ⟨before, after, rfl, start_size, size⟩
  · rintro ⟨before, after, rfl, start_size, size⟩
    exact ⟨before ++ between, after, ⟨rfl, size⟩, before, between, ⟨rfl, start_size⟩, rfl⟩

end Text

end CallersFirst
