import CallersFirst.Proofs.Toml.Quoted
import CallersFirst.Proofs.Toml.Scalar
import CallersFirst.Toml.Document

/-! Values, and the lines of a document that hold them, read back as what they were written for. -/

namespace CallersFirst.Toml

section Values

variable {c : Char} {depth fuel : Nat} {rest : Text}

/-- What is no blank, line break or comment is left. -/
theorem skipBlank_self (noBreak : c ≠ '\n') (noReturn : c ≠ '\r') (noComment : c ≠ '#') (noSpace : isSpace c = false)
    (rest : Text) : skipBlank false (c :: rest) = some (c :: rest) := by
  rw [skipBlank, if_neg (by simp), if_neg noComment, if_neg (by simp [noSpace])]
  · exact noBreak
  · simp [noReturn]

/-- An array goes on behind a comma. -/
theorem elements?_comma {before first behind more : Text} {element : Value} {elements : List Value}
    (blank : skipBlank false before = some first) (unclosed : first.head? ≠ some ']')
    (read : value? depth fuel first = some (element, behind)) (comma : skipBlank false behind = some (',' :: more))
    (further : elements? depth fuel more = some (elements, rest)) :
    elements? depth (fuel + 1) before = some (element :: elements, rest) := by
  rw [elements?, blank]
  simp only [Option.bind_eq_bind, Option.bind_some]
  split
  · simp at unclosed
  · simp [read, comma, further]

/-- An array ends at a bracket. -/
theorem elements?_bracket {before first behind : Text} {element : Value}
    (blank : skipBlank false before = some first) (unclosed : first.head? ≠ some ']')
    (read : value? depth fuel first = some (element, behind)) (closes : skipBlank false behind = some (']' :: rest)) :
    elements? depth (fuel + 1) before = some ([element], rest) := by
  rw [elements?, blank]
  simp only [Option.bind_eq_bind, Option.bind_some]
  split
  · simp at unclosed
  · simp [read, closes]

/-- A quoted text starts with one of the two marks. -/
theorem exists_quoted_eq (text : Text) :
    ∃ mark more, (mark = '\x22' ∨ mark = '\x27') ∧ quoted text = mark :: more := by
  unfold quoted
  -- The style decides which mark it is, and how many of them there are.
  cases Style.choose text with
  | basic => exact ⟨_, _, .inl rfl, rfl⟩
  | literal => exact ⟨_, _, .inr rfl, rfl⟩
  | multiBasic => exact ⟨_, _, .inl rfl, rfl⟩
  | multiLiteral => exact ⟨_, _, .inr rfl, rfl⟩

/-- A quoted text is read back as a value. -/
theorem value?_quoted (element : String) (noDouble : rest.head? ≠ some '\x22')
    (noSingle : rest.head? ≠ some '\x27') :
    value? depth (fuel + 1) (quoted element.toList ++ rest) = some (.string element, rest) := by
  have read := string?_quoted element.toList noDouble noSingle
  obtain ⟨mark, more, isMark, shape⟩ := exists_quoted_eq element.toList
  rw [shape, List.cons_append] at read ⊢
  -- Both marks lead to the reader of strings.
  rcases isMark with rfl | rfl
  all_goals
    rw [value?, read]
    simp

/-- No blank is skipped before a quoted text. -/
theorem skipBlank_quoted (text rest : Text) : skipBlank false (quoted text ++ rest) = some (quoted text ++ rest) := by
  obtain ⟨mark, more, isMark, shape⟩ := exists_quoted_eq text
  rw [shape, List.cons_append]
  rcases isMark with rfl | rfl
  all_goals exact skipBlank_self (by decide) (by decide) (by decide) (by decide) _

/-- A quoted text is not taken for the end of an array. -/
theorem head?_quoted_ne (text rest : Text) : (quoted text ++ rest).head? ≠ some ']' := by
  obtain ⟨mark, more, rfl | rfl, shape⟩ := exists_quoted_eq text
  all_goals simp [shape]

/-- Quoted texts, each on a line of its own, are read up to the bracket behind them. -/
theorem elements?_lines (elements : List String) (enough : elements.length < fuel) :
    elements? depth fuel ('\n' :: (elements.flatMap (fun element =>
      "    ".toList ++ quoted element.toList ++ [',', '\n']) ++ ']' :: rest)) =
        some (elements.map .string, rest) := by
  induction elements generalizing fuel with
  | nil =>
    obtain ⟨fuel, rfl⟩ := Nat.exists_eq_succ_of_ne_zero (Nat.ne_zero_of_lt enough)
    rfl
  | cons element elements ih =>
    -- Reading an element takes one unit of fuel, and so does going on to the next one.
    obtain ⟨fuel, rfl⟩ : ∃ more, fuel = more + 2 := ⟨fuel - 2, by rw [List.length_cons] at enough; omega⟩
    rw [List.flatMap_cons, List.append_assoc, List.append_assoc, List.append_assoc]
    have further := @ih (fuel + 1) (by rw [List.length_cons] at enough; omega)
    exact elements?_comma (skipBlank_quoted element.toList _) (head?_quoted_ne _ _)
      (value?_quoted element (by simp) (by simp)) (skipBlank_self (by decide) (by decide) (by decide) (by decide) _)
      further

/-- An array is longer than the number of its elements, so that its length is fuel enough for them. -/
theorem length_le_stringArray (elements : List String) : elements.length + 2 ≤ (stringArray elements).length := by
  -- Each element takes a line of its own.
  have lines : ∀ elements : List String, elements.length ≤ (elements.flatMap (fun element =>
      "    ".toList ++ quoted element.toList ++ [',', '\n'])).length := by
    intro elements
    induction elements with
    | nil => exact Nat.le_refl _
    | cons element elements ih =>
      simp only [List.flatMap_cons, List.length_append, List.length_cons] at ih ⊢
      omega
  unfold stringArray
  split
  · simp
  · rename_i element
    obtain ⟨mark, more, _, shape⟩ := exists_quoted_eq element.toList
    simp [shape]
  · have bound := lines elements
    simp only [List.length_append, List.length_cons] at bound ⊢
    omega

/-- Behind an opening bracket the elements of an array are read. -/
theorem value?_bracket {inner : Text} {elements : List Value} (some_depth : 1 < depth)
    (read : elements? (depth - 1) fuel inner = some (elements, rest)) :
    value? depth (fuel + 1) ('[' :: inner) = some (.array elements, rest) := by
  rw [value?, (Option.guard_eq_some' ()).2 some_depth, read]
  rfl

/-- An array of texts is read back. -/
theorem value?_stringArray (elements : List String) (some_depth : 1 < depth) (enough : elements.length + 1 < fuel) :
    value? depth fuel (stringArray elements ++ rest) = some (.array (elements.map .string), rest) := by
  -- Reading the bracket and then the elements takes one unit of fuel each.
  obtain ⟨fuel, rfl⟩ : ∃ more, fuel = more + 2 := ⟨fuel - 2, by omega⟩
  unfold stringArray
  split
  · exact value?_bracket some_depth rfl
  · rename_i element
    obtain ⟨fuel, rfl⟩ : ∃ more, fuel = more + 1 := ⟨fuel - 1, by rw [List.length_singleton] at enough; omega⟩
    rw [List.cons_append, List.append_assoc]
    refine value?_bracket some_depth (elements?_bracket (skipBlank_quoted element.toList _) (head?_quoted_ne _ _)
      (value?_quoted element (by simp) (by simp)) ?_)
    exact skipBlank_self (by decide) (by decide) (by decide) (by decide) _
  · rw [List.append_assoc, List.append_assoc]
    exact value?_bracket some_depth (elements?_lines elements (by omega))

/-- A text that is read as a value when it is followed by a line break. -/
structure Writes (content : Text) (value : Value) : Prop where
  /-- No blank comes first. -/
  starts : ∀ c, content.head? = some c → isSpace c = false
  /-- The value is read, given fuel for the length of the text. -/
  reads : ∀ fuel rest, content.length < fuel →
    value? nestingLimit fuel (content ++ '\n' :: rest) = some (value, '\n' :: rest)

/-- A quoted text is read as a string. -/
theorem writes_quoted (element : String) : Writes (quoted element.toList) (.string element) := by
  constructor
  -- Neither mark is a blank, and behind a value the line ends.
  · intro c starts
    obtain ⟨mark, more, rfl | rfl, shape⟩ := exists_quoted_eq element.toList
    all_goals
      rw [shape] at starts
      cases starts
      decide
  · intro fuel rest enough
    obtain ⟨fuel, rfl⟩ : ∃ more, fuel = more + 1 := ⟨fuel - 1, by omega⟩
    exact value?_quoted element (by simp) (by simp)

/-- An array of texts is read as an array of strings. -/
theorem writes_stringArray (elements : List String) :
    Writes (stringArray elements) (.array (elements.map .string)) := by
  constructor
  -- The bracket is no blank, and the length of the array is fuel enough.
  · intro c starts
    unfold stringArray at starts
    split at starts
    all_goals
      cases starts
      decide
  · intro fuel rest enough
    have bound := length_le_stringArray elements
    exact value?_stringArray elements (by decide) (by omega)

/-- A value without quotes is read to the end of its line. -/
theorem writes_scalar {content : Text} {value : Value} (all : ∀ c ∈ content, isScalarChar c)
    (some_char : content ≠ []) (read : scalarValue? content = some value) : Writes content value := by
  obtain ⟨first, more, rfl⟩ := List.exists_cons_of_ne_nil some_char
  -- The first character belongs to a scalar, and so it is none of those that start another value.
  have apart (c : Char) (other : isScalarChar c = false) : first ≠ c := by
    rintro rfl
    exact absurd (all first (by simp)) (by simp [other])
  constructor
  · intro c starts
    cases starts
    simp [isSpace, apart ' ' (by decide), apart '\t' (by decide)]
  · intro fuel rest enough
    obtain ⟨fuel, rfl⟩ : ∃ more, fuel = more + 1 := ⟨fuel - 1, by omega⟩
    have split := scalarText_append all rest
    rw [List.cons_append] at split ⊢
    rw [value?, split]
    · simp [read]
    · simp [apart '[' (by decide)]
    · simp [apart '\x7b' (by decide)]
    · simp [apart '\x22' (by decide)]
    · simp [apart '\x27' (by decide)]

/-- A written truth value is read as such. -/
theorem writes_boolean (flag : Bool) : Writes (boolean flag) (.boolean flag) := by
  refine writes_scalar (isScalarChar_of_mem_boolean flag) ?_ (scalarValue?_boolean flag)
  cases flag with
  | false => decide
  | true => decide

/-- A number with not too many digits is read as an integer. -/
theorem writes_decimal {number : Nat} (small : number < 9223372036854775808) :
    Writes (decimal number) (.integer number) :=
  writes_scalar isScalarChar_of_mem_decimal (decimal_ne_nil number) (scalarValue?_decimal small)

end Values

section Lines

variable {key : String} {content rest : Text} {value : Value}

/-- A key that needs no quotes. -/
def IsBare (key : String) : Prop :=
  key.toList ≠ [] ∧ key.toList.all isBareKey

instance (key : String) : Decidable (IsBare key) :=
  inferInstanceAs (Decidable (_ ∧ _))

/-- A key without quotes starts with none of the other characters. -/
theorem IsBare.exists_eq_cons (bare : IsBare key) :
    ∃ first more, key.toList = first :: more ∧ ∀ c, isBareKey c = false → first ≠ c := by
  obtain ⟨some_char, all⟩ := bare
  obtain ⟨first, more, shape⟩ := List.exists_cons_of_ne_nil some_char
  refine ⟨first, more, shape, ?_⟩
  rintro c other rfl
  exact absurd (List.all_eq_true.1 all first (by simp [shape])) (by simp [other])

/-- A key without quotes is read up to the first character that cannot belong to it. -/
theorem simpleKey?_append (bare : IsBare key) {c : Char} (stops : isBareKey c = false) :
    simpleKey? (key.toList ++ c :: rest) = some (key.toList, c :: rest) := by
  -- The key is taken up to the character that cannot belong to it.
  have taken : (key.toList ++ c :: rest).takeWhile isBareKey = key.toList := by
    rw [List.takeWhile_append_of_pos (List.all_eq_true.1 bare.2),
      List.takeWhile_cons_of_neg (by simp [stops]), List.append_nil]
  obtain ⟨first, more, shape, apart⟩ := bare.exists_eq_cons
  rw [simpleKey?, taken, List.drop_left, if_neg bare.1]
  · simp [shape, apart '\x22' (by decide)]
  · simp [shape, apart '\x27' (by decide)]

/-- A key without quotes is read, with the blanks behind it. -/
theorem key?_append (bare : IsBare key) {c : Char} (stops : isBareKey c = false)
    (whole : ∀ more, (c :: rest).dropWhile isSpace ≠ '.' :: more) :
    key? (key.toList ++ c :: rest) = some ([key], (c :: rest).dropWhile isSpace) := by
  -- A bare key has no blank in front.
  have noBlank : (key.toList ++ c :: rest).dropWhile isSpace = key.toList ++ c :: rest := by
    obtain ⟨first, more, shape, apart⟩ := bare.exists_eq_cons
    rw [shape, List.cons_append, List.dropWhile_cons_of_neg]
    simp [isSpace, apart ' ' (by decide), apart '\t' (by decide)]
  rw [key?, show nestingLimit - 1 = 78 + 1 from rfl, keyParts?, noBlank, simpleKey?_append bare stops]
  simp

/-- The blank in front of a written value is skipped, and nothing of the value. -/
theorem Writes.dropWhile_append (writes : Writes content value) (rest : Text) :
    (' ' :: (content ++ '\n' :: rest)).dropWhile isSpace = content ++ '\n' :: rest := by
  rw [List.dropWhile_cons_of_pos (by decide)]
  cases content with
  | nil => rfl
  | cons c content => rw [List.cons_append, List.dropWhile_cons_of_neg (by simp [writes.starts c rfl])]

/-- A key and its value are read, up to the end of the line. -/
theorem statement?_keyLine (bare : IsBare key) (writes : Writes content value) :
    statement? (key.toList ++ ' ' :: '=' :: ' ' :: (content ++ '\n' :: rest)) =
      some (.assign [key] value, '\n' :: rest) := by
  -- The key ends at the blank, and the value behind the equals sign has fuel enough.
  have keys : key? (key.toList ++ ' ' :: '=' :: ' ' :: (content ++ '\n' :: rest)) =
      some ([key], '=' :: ' ' :: (content ++ '\n' :: rest)) :=
    key?_append bare (by decide) (by simp [isSpace])
  have read := writes.reads ((' ' :: (content ++ '\n' :: rest)).length + 1) rest (by simp; omega)
  obtain ⟨first, more, shape, apart⟩ := bare.exists_eq_cons
  rw [statement?, keys]
  · simp only [Option.bind_eq_bind, Option.bind_some, writes.dropWhile_append, read]
    rfl
  · simp [shape, apart '[' (by decide)]
  · simp [shape, apart '[' (by decide)]

/-- The header of a table is read, up to its bracket. -/
theorem statement?_header (bare : IsBare key) :
    statement? ('[' :: (key.toList ++ ']' :: rest)) = some (.openTable [key], rest) := by
  have keys : key? (key.toList ++ ']' :: rest) = some ([key], ']' :: rest) :=
    key?_append bare (by decide) (by simp [isSpace])
  -- The name starts with no bracket, so this is not the header of an array.
  obtain ⟨first, more, shape, apart⟩ := bare.exists_eq_cons
  rw [statement?, keys]
  · simp
  · simp [shape, apart '[' (by decide)]

/-- A line that says something, or nothing, in front of other lines. -/
def Says (line : Text) (said : List Statement) : Prop :=
  line ≠ [] ∧ ∀ fuel rest, statements? (fuel + 1) (line ++ rest) = (statements? fuel rest).map (said ++ ·)

/-- An empty line says nothing. -/
theorem says_blank : Says ['\n'] [] := by
  refine ⟨by simp, fun fuel rest => ?_⟩
  rw [List.singleton_append, statements?]
  simp [isSpace, lineEnd?, lineBreak?]

/-- A line with a statement starts with a character that stands in no blank line. -/
theorem says_statement {c : Char} {line : Text} {said : Statement} (noSpace : isSpace c = false) (noComment : c ≠ '#')
    (noBreak : c ≠ '\n') (noReturn : c ≠ '\r')
    (read : ∀ rest, statement? (c :: (line ++ '\n' :: rest)) = some (said, '\n' :: rest)) :
    Says (c :: (line ++ ['\n'])) [said] := by
  refine ⟨by simp, fun fuel rest => ?_⟩
  -- The statement is read up to the line feed, which ends its line.
  have ends : lineEnd? ('\n' :: rest) = some rest := rfl
  rw [List.cons_append, List.append_assoc, List.singleton_append, statements?,
    List.dropWhile_cons_of_neg (by simp [noSpace])]
  simp only [noComment, noBreak, noReturn, or_self, if_false, read, Option.bind_eq_bind, Option.bind_some, ends]
  cases statements? fuel rest with
  | none => rfl
  | some later => rfl

/-- The line of a key and its value says that the key has the value. -/
theorem says_keyLine (bare : IsBare key) (writes : Writes content value) :
    Says (keyLine key content) [.assign [key] value] := by
  obtain ⟨first, more, shape, apart⟩ := bare.exists_eq_cons
  -- The line starts with the first character of the key, which no blank line and no comment does.
  have line : keyLine key content = first :: ((more ++ ' ' :: '=' :: ' ' :: content) ++ ['\n']) := by
    simp [keyLine, shape]
  rw [line]
  refine says_statement ?_ (apart '#' (by decide)) (apart '\n' (by decide)) (apart '\r' (by decide)) fun rest => ?_
  · simp [isSpace, apart ' ' (by decide), apart '\t' (by decide)]
  · simpa [shape] using @statement?_keyLine key content rest value bare writes

/-- The header of a table opens the table. -/
theorem says_header (bare : IsBare key) : Says ('[' :: (key.toList ++ [']', '\n'])) [.openTable [key]] := by
  have header : '[' :: (key.toList ++ [']', '\n']) = '[' :: ((key.toList ++ [']']) ++ ['\n']) := by simp
  rw [header]
  refine says_statement (by decide) (by decide) (by decide) (by decide) fun rest => ?_
  rw [List.append_assoc]
  exact statement?_header bare

/-- Lines that each say something together say all of it. -/
theorem statements?_flatten {fuel : Nat} {lines : List (Text × List Statement)}
    (all : ∀ line ∈ lines, Says line.1 line.2) (enough : (lines.map (·.1)).flatten.length < fuel) :
    statements? fuel (lines.map (·.1)).flatten = some (lines.map (·.2)).flatten := by
  induction lines generalizing fuel with
  | nil =>
    obtain ⟨fuel, rfl⟩ : ∃ more, fuel = more + 1 := ⟨fuel - 1, by omega⟩
    rfl
  | cons line lines ih =>
    -- The first line says its part and is not empty, so there is fuel left for the others.
    obtain ⟨⟨some_char, said⟩, others⟩ := List.forall_mem_cons.1 all
    have longer := List.length_pos_iff.2 some_char
    obtain ⟨fuel, rfl⟩ : ∃ more, fuel = more + 1 := ⟨fuel - 1, by omega⟩
    rw [List.map_cons, List.flatten_cons] at enough ⊢
    rw [List.length_append] at enough
    rw [said, ih others (by omega)]
    rfl

end Lines

end CallersFirst.Toml
