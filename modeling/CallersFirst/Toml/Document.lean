import CallersFirst.Toml.Scalar
import CallersFirst.Toml.Table

/-! Reading of whole TOML documents. -/

namespace CallersFirst.Toml

/-- How deep values may be nested, and how many parts a dotted key may have, to stay readable. -/
def nestingLimit : Nat := 80

/-- Whether a character may stand in a key without quotes. -/
def isBareKey (c : Char) : Bool :=
  isDigit c || ('a' ≤ c && c ≤ 'z') || ('A' ≤ c && c ≤ 'Z') || c = '_' || c = '-'

/-- Reads one part of a key. -/
def simpleKey? : Text → Option (Text × Text)
  | '\x22' :: rest => basicRest rest
  | '\x27' :: rest => literalRest rest
  | text =>
    let bare := text.takeWhile isBareKey
    if bare = [] then none else some (bare, text.drop bare.length)

/-- Reads the parts of a key with the blanks around them, given at least as much fuel as it has parts. -/
def keyParts? : Nat → Text → Option (List String × Text)
  | 0, _ => none
  | fuel + 1, text => do
    let (part, rest) ← simpleKey? (text.dropWhile isSpace)
    match rest.dropWhile isSpace with
    | '.' :: more =>
      let (parts, rest) ← keyParts? fuel more
      return (String.ofList part :: parts, rest)
    | rest => return ([String.ofList part], rest)

/-- Reads a key of fewer parts than the limit. -/
def key? (text : Text) : Option (List String × Text) :=
  keyParts? (nestingLimit - 1) text

/-- Skips blanks, line breaks and comments. Within a comment `comment` holds. -/
def skipBlank (comment : Bool) : Text → Option Text
  | [] => some []
  | '\n' :: rest => skipBlank false rest
  | '\r' :: '\n' :: rest => skipBlank false rest
  | c :: rest =>
    if comment then if isPlain c then skipBlank true rest else none
    else if c = '#' then skipBlank true rest
    else if isSpace c then skipBlank false rest
    else some (c :: rest)

mutual

/-- Reads a value nested in less than the given number of others, given fuel for all its parts. -/
def value? (depth : Nat) : Nat → Text → Option (Value × Text)
  | 0, _ => none
  | fuel + 1, text =>
    match text with
    | '[' :: rest => do
      guard (1 < depth)
      let (elements, rest) ← elements? (depth - 1) fuel rest
      return (.array elements, rest)
    | '\x7b' :: rest => do
      guard (1 < depth)
      match rest.dropWhile isSpace with
      | '\x7d' :: rest => return (.table [], rest)
      | rest =>
        let (items, rest) ← pairs? (depth - 1) fuel [] rest
        return (.table (completeAll items), rest)
    | '\x22' :: _ | '\x27' :: _ => do
      let (content, rest) ← string? text
      return (.string (String.ofList content), rest)
    | _ => do
      let (scalar, rest) := scalarText text
      return (← scalarValue? scalar, rest)

/-- Reads the elements of an array, up to its closing bracket. -/
def elements? (depth : Nat) : Nat → Text → Option (List Value × Text)
  | 0, _ => none
  | fuel + 1, text => do
    match ← skipBlank false text with
    | ']' :: rest => return ([], rest)
    | text =>
      let (element, rest) ← value? depth fuel text
      match ← skipBlank false rest with
      | ',' :: rest =>
        let (elements, rest) ← elements? depth fuel rest
        return (element :: elements, rest)
      | ']' :: rest => return ([element], rest)
      | _ => none

/-- Reads the pairs of a table on one line into the table, up to its closing brace. -/
def pairs? (depth : Nat) : Nat → Items → Text → Option (Items × Text)
  | 0, _, _ => none
  | fuel + 1, items, text => do
    let (keys, rest) ← key? text
    match rest with
    | '=' :: rest =>
      let (content, rest) ← value? depth fuel (rest.dropWhile isSpace)
      let items ← assign keys content .header items
      match rest.dropWhile isSpace with
      | ',' :: rest => pairs? depth fuel items rest
      | '\x7d' :: rest => return (items, rest)
      | _ => none
    | _ => none

end

/-- A line of a document that says something. -/
inductive Statement where
  /-- A value for a key of the current table. -/
  | assign (keys : List String) (content : Value)
  /-- The header of a table. -/
  | openTable (keys : List String)
  /-- The header of one more table of an array. -/
  | openElement (keys : List String)

/-- Reads a statement, up to the end of what it says. -/
def statement? (text : Text) : Option (Statement × Text) :=
  match text with
  | '[' :: '[' :: rest => do
    let (keys, rest) ← key? rest
    match rest with
    | ']' :: ']' :: rest => return (.openElement keys, rest)
    | _ => none
  | '[' :: rest => do
    let (keys, rest) ← key? rest
    match rest with
    | ']' :: rest => return (.openTable keys, rest)
    | _ => none
  | text => do
    let (keys, rest) ← key? text
    match rest with
    | '=' :: rest =>
      let (content, rest) ← value? nestingLimit (rest.length + 1) (rest.dropWhile isSpace)
      return (.assign keys content, rest)
    | _ => none

/-- What follows a line break, or nothing at the end of the text. -/
def lineBreak? : Text → Option Text
  | [] => some []
  | '\n' :: rest => some rest
  | '\r' :: '\n' :: rest => some rest
  | _ => none

/-- What follows a line that says no more than a comment. -/
def lineEnd? (text : Text) : Option Text :=
  match text.dropWhile isSpace with
  | '#' :: rest => lineBreak? (rest.dropWhile isPlain)
  | rest => lineBreak? rest

/-- Reads the statements of a document, given at least as much fuel as it has lines and one more. -/
def statements? : Nat → Text → Option (List Statement)
  | 0, _ => none
  | fuel + 1, text =>
    match text.dropWhile isSpace with
    | [] => some []
    | c :: rest =>
      if c = '#' ∨ c = '\n' ∨ c = '\r' then do
        statements? fuel (← lineEnd? (c :: rest))
      else do
        let (statement, rest) ← statement? (c :: rest)
        let later ← statements? fuel (← lineEnd? rest)
        return statement :: later

/-- A document under construction: its keys and the path of its current table. -/
structure Draft where
  /-- The keys of the document. -/
  items : Items := []
  /-- The path of the table to which assignments belong. -/
  current : List String := []

/-- A draft with one more statement. -/
def Draft.extend? (draft : Draft) : Statement → Option Draft
  | .assign keys content => do
    let items ← within false (Toml.assign keys content) draft.current .header draft.items
    return { draft with items }
  | .openTable keys => do
    return ⟨← Toml.openTable keys draft.items, keys⟩
  | .openElement keys => do
    return ⟨← Toml.openElement keys draft.items, keys⟩

/-- A text without the byte order mark it may start with. -/
def dropByteOrderMark : Text → Text
  | '\ufeff' :: rest => rest
  | text => text

/-- The table that a text stands for. -/
def parse? (text : Text) : Option Value := do
  let statements ← statements? (text.length + 1) (dropByteOrderMark text)
  let draft ← statements.foldlM Draft.extend? {}
  return .table (completeAll draft.items)

end CallersFirst.Toml
