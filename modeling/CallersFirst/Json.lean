import CallersFirst.Text

/-! JSON values and their indented text. -/

namespace CallersFirst

/-- A JSON value, as far as reports need it. -/
inductive Json where
  /-- The value that stands for a missing one. -/
  | null
  /-- A whole number. -/
  | number (value : Nat)
  /-- A string. -/
  | string (text : Text)
  /-- A list of values. -/
  | array (items : List Json)
  /-- Values by name, in a fixed order. -/
  | object (members : List (String × Json))

namespace Json

/-- The digit for a number below sixteen. -/
def hexDigit (value : Nat) : Char :=
  Char.ofNat (if value < 10 then 48 + value else 87 + value)

/-- A character inside a string. Quotes, backslashes and control characters are escaped. -/
def escaped (c : Char) : Text :=
  match c with
  | '\x22' => "\\\x22".toList
  | '\\' => "\\\\".toList
  | '\x08' => "\\b".toList
  | '\x09' => "\\t".toList
  | '\x0a' => "\\n".toList
  | '\x0c' => "\\f".toList
  | '\x0d' => "\\r".toList
  | c =>
    if c.toNat < 32 then "\\u00".toList ++ [hexDigit (c.toNat / 16), hexDigit (c.toNat % 16)] else [c]

/-- A string in quotes. -/
def quoted (text : Text) : Text :=
  '\x22' :: text.flatMap escaped ++ ['\x22']

/-- The start of a line at a depth. -/
def newLine (depth : Nat) : Text :=
  '\n' :: List.replicate (2 * depth) ' '

/-- The text of a list whose items each stand on lines of their own between two brackets. -/
def bracketed (opening closing : Char) (depth : Nat) (items : List Text) : Text :=
  if items.isEmpty then [opening, closing]
  else
    opening :: newLine (depth + 1) ++ (',' :: newLine (depth + 1)).intercalate items
      ++ newLine depth ++ [closing]

mutual

/-- The indented text of a value at a depth. -/
def pretty (depth : Nat) : Json → Text
  | .null => "null".toList
  | .number value => Nat.toDigits 10 value
  | .string text => quoted text
  | .array items => bracketed '[' ']' depth (prettyItems (depth + 1) items)
  | .object members => bracketed '\x7b' '\x7d' depth (prettyMembers (depth + 1) members)

/-- The texts of the items of a list. -/
def prettyItems (depth : Nat) : List Json → List Text
  | [] => []
  | item :: items => pretty depth item :: prettyItems depth items

/-- The texts of named values. -/
def prettyMembers (depth : Nat) : List (String × Json) → List Text
  | [] => []
  | (name, value) :: members =>
    (quoted name.toList ++ ": ".toList ++ pretty depth value) :: prettyMembers depth members

end

/-- A value that may be missing. -/
def orNull {α : Type} (encode : α → Json) : Option α → Json
  | some value => encode value
  | none => .null

/-- A list of values. -/
def list {α : Type} (encode : α → Json) (values : List α) : Json :=
  .array (values.map encode)

/-- A string. -/
def ofString (text : String) : Json :=
  .string text.toList

end Json

end CallersFirst
