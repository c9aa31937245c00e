/-! The values of a TOML document, as far as settings can hold them. -/

namespace CallersFirst.Toml

/-- A value. -/
inductive Value where
  /-- A string. -/
  | string (text : String)
  /-- A whole number. -/
  | integer (number : Int)
  /-- A truth value. -/
  | boolean (flag : Bool)
  /-- A number with a fraction, which no setting is. -/
  | fraction
  /-- A date, a time or both, which no setting is. -/
  | moment
  /-- A list of values. -/
  | array (elements : List Value)
  /-- A table with its keys in the order in which they were given. -/
  | table (entries : List (String × Value))
deriving Repr

/-- The fields of a record, written as a table by name or as an array by position. A date or a time is
a record too, none of whose fields a setting can have. -/
def Value.fields? : Value → Option (Nat → String → Option Value)
  | .table entries => some fun _ name => entries.lookup name
  | .array elements => some fun index _ => elements[index]?
  | .moment => some fun _ _ => none
  | _ => none

/-- A string's text. -/
def Value.string? : Value → Option String
  | .string text => some text
  | _ => none

/-- A truth value. -/
def Value.boolean? : Value → Option Bool
  | .boolean flag => some flag
  | _ => none

/-- A whole number that is not negative. -/
def Value.natural? : Value → Option Nat
  | .integer number => if 0 ≤ number then some number.toNat else none
  | _ => none

/-- The texts of an array that holds strings only. -/
def Value.strings? : Value → Option (List String)
  | .array elements => elements.mapM (·.string?)
  | _ => none

end CallersFirst.Toml
