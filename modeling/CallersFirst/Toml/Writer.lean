import CallersFirst.Text
import CallersFirst.Toml.Value

/-! Writing of strings, arrays and tables in a readable layout. -/

namespace CallersFirst.Toml

/-- The length of the longest run of a character, given the run that has just been seen. -/
def longestRun (c : Char) (current longest : Nat) : Text → Nat
  | [] => longest
  | d :: rest =>
    if d = c then longestRun c (current + 1) (max longest (current + 1)) rest
    else longestRun c 0 longest rest

/-- Whether a character cannot be written without an escape in any kind of string. -/
def isControl (c : Char) : Bool :=
  (c.toNat ≤ 0x1F && c ≠ '\t' && c ≠ '\n') || c.toNat = 0x7F

/-- The kinds of quoted strings. -/
inductive Style where
  /-- One line with escapes. -/
  | basic
  /-- One line as it is. -/
  | literal
  /-- Several lines with escapes. -/
  | multiBasic
  /-- Several lines as they are. -/
  | multiLiteral
deriving DecidableEq, Repr

/-- The kind in which a text is easiest to read: the first that needs no escapes, in the order basic,
literal, several lines basic, several lines literal, and else one with escapes. -/
def Style.choose (text : Text) : Style :=
  let doubles := longestRun '\x22' 0 0 text
  let singles := longestRun '\x27' 0 0 text
  let broken := '\n' ∈ text
  let backslash := '\\' ∈ text
  if text.any isControl then if broken then .multiBasic else .basic
  else if !backslash && doubles = 0 && !broken then .basic
  else if singles = 0 && !broken then .literal
  else if !backslash && doubles ≤ 2 then .multiBasic
  else if singles ≤ 2 then .multiLiteral
  else if broken then .multiBasic
  else .basic

/-- A hexadecimal digit. -/
def hexDigit (number : Nat) : Char :=
  if number < 10 then Char.ofNat (number + '0'.toNat) else Char.ofNat (number - 10 + 'A'.toNat)

/-- The four hexadecimal digits of a small code point. -/
def hexCode (c : Char) : Text :=
  [hexDigit (c.toNat / 4096 % 16), hexDigit (c.toNat / 256 % 16), hexDigit (c.toNat / 16 % 16),
    hexDigit (c.toNat % 16)]

/-- The escape of a character that has one, other than the quotation mark. -/
def escape? (multi : Bool) (c : Char) : Option Text :=
  if c = '\x08' then some ['\\', 'b']
  else if c = '\t' then some ['\\', 't']
  else if c = '\n' then if multi then none else some ['\\', 'n']
  else if c = '\x0C' then some ['\\', 'f']
  else if c = '\r' then some ['\\', 'r']
  else if c = '\\' then some ['\\', '\\']
  else if c.toNat ≤ 0x1F ∨ c.toNat = 0x7F then some ('\\' :: 'u' :: hexCode c)
  else none

/-- A text with escapes, in which no run of quotation marks is longer than two on several lines, or
present at all on one. -/
def escaped (multi : Bool) (run : Nat) : Text → Text
  | [] => []
  | c :: rest =>
    if c = '\x22' then
      if (if multi then 2 else 0) < run + 1 then '\\' :: '\x22' :: escaped multi 0 rest
      else c :: escaped multi (run + 1) rest
    else
      match escape? multi c with
      | some code => code ++ escaped multi 0 rest
      | none => c :: escaped multi 0 rest

/-- A line break in front of a text that has one. -/
def leadingBreak (text : Text) : Text :=
  if '\n' ∈ text then ['\n'] else []

/-- A quoted text. -/
def quoted (text : Text) : Text :=
  let double := ['\x22', '\x22', '\x22']
  let single := ['\x27', '\x27', '\x27']
  match Style.choose text with
  | .basic => '\x22' :: (escaped false 0 text ++ ['\x22'])
  | .literal => '\x27' :: (text ++ ['\x27'])
  | .multiBasic => double ++ leadingBreak text ++ escaped true 0 text ++ double
  | .multiLiteral => single ++ leadingBreak text ++ text ++ single

/-- The decimal digits of a number. -/
def decimal (number : Nat) : Text :=
  Nat.toDigits 10 number

/-- An array of strings: on one line up to one element, else with one line for each. -/
def stringArray : List String → Text
  | [] => ['[', ']']
  | [element] => '[' :: (quoted element.toList ++ [']'])
  | elements =>
    ['[', '\n'] ++
      elements.flatMap (fun element => "    ".toList ++ quoted element.toList ++ [',', '\n']) ++ [']']

/-- A truth value. -/
def boolean (flag : Bool) : Text :=
  if flag then "true".toList else "false".toList

/-- The line of a key and its value. -/
def keyLine (key : String) (content : Text) : Text :=
  key.toList ++ " = ".toList ++ content ++ ['\n']

/-- A table with its header. -/
def tableBlock (name : String) (lines : List Text) : Text :=
  '[' :: (name.toList ++ [']', '\n'] ++ lines.flatten)

end CallersFirst.Toml
