import CallersFirst.Text

/-! Reading of quoted strings: two quotation marks, on one line or on several. -/

namespace CallersFirst.Toml

/-- Whether a character may stand for itself in a string or comment. -/
def isPlain (c : Char) : Bool :=
  c = '\t' || (0x20 ≤ c.toNat && c.toNat ≠ 0x7F)

/-- Whether a character is a space or a tab. -/
def isSpace (c : Char) : Bool :=
  c = ' ' || c = '\t'

/-- The character that a letter stands for behind a backslash. -/
def shortEscape? : Char → Option Char
  | 'b' => some '\x08'
  | 't' => some '\t'
  | 'n' => some '\n'
  | 'f' => some '\x0C'
  | 'r' => some '\r'
  | '\x22' => some '\x22'
  | '\\' => some '\\'
  | _ => none

/-- The value of a hexadecimal digit. -/
def hexDigit? (c : Char) : Option Nat :=
  if '0' ≤ c ∧ c ≤ '9' then some (c.toNat - '0'.toNat)
  else if 'a' ≤ c ∧ c ≤ 'f' then some (c.toNat - 'a'.toNat + 10)
  else if 'A' ≤ c ∧ c ≤ 'F' then some (c.toNat - 'A'.toNat + 10)
  else none

/-- The number that hexadecimal digits stand for. -/
def hexNumber? (digits : Text) : Option Nat :=
  digits.foldlM (fun number digit => (hexDigit? digit).map (16 * number + ·)) 0

/-- The character with a code point in hexadecimal digits. -/
def codePoint? (digits : Text) : Option Char := do
  let number ← hexNumber? digits
  guard number.isValidChar
  return Char.ofNat number

/-- A reading with one more character in front of what was read. -/
def prepend (c : Char) (reading : Text × Text) : Text × Text :=
  (c :: reading.1, reading.2)

/-- Reads the rest of a string on one line with escapes, up to its closing mark. -/
def basicRest : Text → Option (Text × Text)
  | [] => none
  | '\x22' :: rest => some ([], rest)
  | '\\' :: 'u' :: a :: b :: c :: d :: rest => do
    return prepend (← codePoint? [a, b, c, d]) (← basicRest rest)
  | '\\' :: 'U' :: a :: b :: c :: d :: e :: f :: g :: h :: rest => do
    return prepend (← codePoint? [a, b, c, d, e, f, g, h]) (← basicRest rest)
  | '\\' :: letter :: rest => do
    return prepend (← shortEscape? letter) (← basicRest rest)
  | c :: rest => if isPlain c then (basicRest rest).map (prepend c) else none

/-- Reads the rest of a string on one line without escapes, up to its closing mark. -/
def literalRest : Text → Option (Text × Text)
  | [] => none
  | '\x27' :: rest => some ([], rest)
  | c :: rest => if isPlain c then (literalRest rest).map (prepend c) else none

/-- Splits off up to two marks that belong to a string because its closing marks follow them. -/
def closingMarks (mark : Char) : Text → Text × Text
  | a :: b :: rest =>
    if a = mark ∧ b = mark then ([a, b], rest) else if a = mark then ([a], b :: rest) else ([], a :: b :: rest)
  | [a] => if a = mark then ([a], []) else ([], [a])
  | [] => ([], [])

/-- Whether only spaces and tabs stand before the next line break. -/
def endsLine (text : Text) : Bool :=
  match text.dropWhile isSpace with
  | '\n' :: _ => true
  | '\r' :: '\n' :: _ => true
  | _ => false

/-- Reads the rest of a string on several lines with escapes, up to its closing marks.

A backslash at the end of a line joins it to the next text, and until then `joining` holds. -/
def multiBasicRest (joining : Bool) : Text → Option (Text × Text)
  | [] => none
  | '\r' :: '\n' :: rest =>
    if joining then multiBasicRest true rest else (multiBasicRest false rest).map (prepend '\n')
  | '\x22' :: '\x22' :: '\x22' :: rest => some (closingMarks '\x22' rest)
  | '\\' :: 'u' :: a :: b :: c :: d :: rest => do
    return prepend (← codePoint? [a, b, c, d]) (← multiBasicRest false rest)
  | '\\' :: 'U' :: a :: b :: c :: d :: e :: f :: g :: h :: rest => do
    return prepend (← codePoint? [a, b, c, d, e, f, g, h]) (← multiBasicRest false rest)
  | '\\' :: letter :: rest =>
    if endsLine (letter :: rest) then multiBasicRest true rest
    else do return prepend (← shortEscape? letter) (← multiBasicRest false rest)
  | c :: rest =>
    if joining && (isSpace c || c = '\n') then multiBasicRest true rest
    else if isPlain c || c = '\n' then (multiBasicRest false rest).map (prepend c)
    else none

/-- Reads the rest of a string on several lines without escapes, up to its closing marks. -/
def multiLiteralRest : Text → Option (Text × Text)
  | [] => none
  | '\r' :: '\n' :: rest => (multiLiteralRest rest).map (prepend '\n')
  | '\x27' :: '\x27' :: '\x27' :: rest => some (closingMarks '\x27' rest)
  | c :: rest =>
    if isPlain c || c = '\n' then (multiLiteralRest rest).map (prepend c) else none

/-- A text without the line break it starts with. -/
def dropLineBreak : Text → Text
  | '\n' :: rest => rest
  | '\r' :: '\n' :: rest => rest
  | text => text

/-- Reads a string of any kind: its characters and what follows it. -/
def string? : Text → Option (Text × Text)
  | '\x22' :: '\x22' :: '\x22' :: rest => multiBasicRest false (dropLineBreak rest)
  | '\x27' :: '\x27' :: '\x27' :: rest => multiLiteralRest (dropLineBreak rest)
  | '\x22' :: rest => basicRest rest
  | '\x27' :: rest => literalRest rest
  | _ => none

end CallersFirst.Toml
