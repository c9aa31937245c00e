import CallersFirst.Path
import Mathlib.Data.Option.Basic

/-! The last names of paths. -/

namespace CallersFirst

namespace Text

variable {separator : Char}

/-- A text is never split into nothing. -/
theorem splitAt_ne_nil (separator : Char) (text : Text) : splitAt separator text ≠ [] := by
  cases text with
  | nil => simp [splitAt]
  | cons c rest =>
    -- A separator starts another piece, and any other character joins the first one.
    rw [splitAt]
    split
    · simp
    · split
      · simp
      · simp

/-- A text without separators is its only part. -/
theorem splitAt_eq_singleton {text : Text} (whole : separator ∉ text) : splitAt separator text = [text] := by
  induction text with
  | nil => rfl
  | cons c rest ih =>
    simp only [List.mem_cons, not_or] at whole
    rw [splitAt, if_neg (Ne.symm whole.1), ih whole.2]

/-- The parts of two texts with a separator between them are those of both. -/
theorem splitAt_append_cons (front back : Text) :
    splitAt separator (front ++ separator :: back) = splitAt separator front ++ splitAt separator back := by
  induction front with
  | nil => simp [splitAt]
  | cons c rest ih =>
    simp only [List.cons_append, splitAt]
    split
    · rw [ih, List.cons_append]
    · -- The character joins the first part of the rest, which is there in any case.
      rw [ih]
      cases parts : splitAt separator rest with
      | nil => exact absurd parts (splitAt_ne_nil separator rest)
      | cons first others => simp

end Text

namespace Path

variable {path other name : String}

/-- Whatever is neither empty nor made of one or two dots is a name. -/
theorem component?_eq_name {piece : String} (some_name : piece ≠ "") (no_dot : piece ≠ ".")
    (no_dots : piece ≠ "..") : component? piece = some (.name piece) := by
  unfold component?
  -- The three spellings that are no names are excluded.
  split
  · exact absurd rfl some_name
  · exact absurd rfl no_dot
  · exact absurd rfl no_dots
  · rfl

/-- A path whose last piece is a name has that name. -/
theorem fileName?_of_segments (last : (segments path).getLast? = some name)
    (named : component? name = some (.name name)) : fileName? path = some name := by
  obtain ⟨front, split⟩ := List.getLast?_eq_some_iff.1 last
  have steps : ((segments path).filterMap component?).getLast? = some (.name name) := by
    rw [split, List.filterMap_append]
    simp [named]
  -- A step in front of the others is not the last one.
  have components : (components path).getLast? = some (.name name) := by
    unfold Path.components
    split
    · simp [List.getLast?_cons, steps]
    · split
      · simp [List.getLast?_cons, steps]
      · exact steps
  simp only [fileName?, components]

/-- The last piece of a path that ends with a name behind a slash. -/
theorem getLast?_segments (front : Text) (written : path.toList = front ++ '/' :: name.toList)
    (whole : '/' ∉ name.toList) : (segments path).getLast? = some name := by
  rw [segments, written, Text.splitAt_append_cons, Text.splitAt_eq_singleton whole]
  simp

/-- The last piece of the path of an entry of a directory is the name of the entry. -/
theorem getLast?_segments_join (directory : String) (whole : '/' ∉ name.toList) :
    (segments (join directory name)).getLast? = some name := by
  unfold join
  split
  · -- In no directory, the name is the whole path.
    simp [segments, Text.splitAt_eq_singleton whole]
  · rename_i slash
    obtain ⟨front, split⟩ := List.getLast?_eq_some_iff.1 slash
    exact getLast?_segments front (by simp [split]) whole
  · exact getLast?_segments directory.toList (by simp) whole

/-- A path of an entry of a directory is written with the name at its end. -/
theorem exists_toList_join (directory name : String) :
    ∃ front, (join directory name).toList = front ++ name.toList := by
  unfold join
  split
  · exact ⟨[], rfl⟩
  · exact ⟨directory.toList, by simp⟩
  · exact ⟨directory.toList ++ ['/'], by simp⟩

/-- The extension of a path is that of its last name. -/
theorem extension?_congr (same : fileName? path = fileName? other) : extension? path = extension? other := by
  simp only [extension?, same]

end Path

end CallersFirst
