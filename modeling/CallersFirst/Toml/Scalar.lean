import CallersFirst.Text
import CallersFirst.Toml.Quoted
import CallersFirst.Toml.Value

/-! Reading of numbers, truth values, dates and times. -/

namespace CallersFirst.Toml

/-- Whether a character is a decimal digit. -/
def isDigit (c : Char) : Bool :=
  '0' ≤ c && c ≤ '9'

/-- The digits of a run in which single underscores may stand between digits. -/
def digitRun? (digit : Char → Bool) : Text → Option Text
  | [] => none
  | [c] => if digit c then some [c] else none
  | c :: '_' :: rest => if digit c then (digitRun? digit rest).map (c :: ·) else none
  | c :: rest => if digit c then (digitRun? digit rest).map (c :: ·) else none

/-- The number that digits stand for in a base. -/
def numberOf (base : Nat) (digits : Text) : Nat :=
  digits.foldl (fun number digit => base * number + (hexDigit? digit).getD 0) 0

/-- A sign and what follows it. -/
def signed : Text → Bool × Text
  | '-' :: rest => (true, rest)
  | '+' :: rest => (false, rest)
  | text => (false, text)

/-- The digits of a whole number without a sign, which starts with a zero only if it is zero. -/
def decimalDigits? (text : Text) : Option Text := do
  let digits ← digitRun? isDigit text
  guard (text = ['0'] ∨ digits.head? ≠ some '0')
  return digits

/-- A number that fits into 64 bits with a sign. -/
def bounded? (number : Int) : Option Int :=
  if -9223372036854775808 ≤ number ∧ number < 9223372036854775808 then some number else none

/-- A whole number, in decimal with an optional sign or in one of the marked bases. -/
def integer? : Text → Option Int
  | '0' :: 'x' :: rest => do
    bounded? (numberOf 16 (← digitRun? (hexDigit? · |>.isSome) rest))
  | '0' :: 'o' :: rest => do
    bounded? (numberOf 8 (← digitRun? (fun c => '0' ≤ c && c ≤ '7') rest))
  | '0' :: 'b' :: rest => do
    bounded? (numberOf 2 (← digitRun? (fun c => c = '0' || c = '1') rest))
  | text => do
    let (negative, unsigned) := signed text
    let number : Int := numberOf 10 (← decimalDigits? unsigned)
    bounded? (if negative then -number else number)

/-- The least number too large for a binary fraction of 64 bits. -/
def overflowBound : Nat :=
  Nat.pow 2 1024 - Nat.pow 2 970

/-- Whether digits times a power of ten reach the bound of binary fractions of 64 bits. -/
def overflows (digits : Text) (exponent : Int) : Bool :=
  let number := numberOf 10 digits
  let magnitude := (digits.length : Int) + exponent
  -- Far from the bound the number of digits decides.
  if number = 0 then false
  else if exponent > 400 then true
  else if magnitude < 300 then false
  else if exponent ≥ 0 then overflowBound ≤ number * Nat.pow 10 exponent.toNat
  else overflowBound * Nat.pow 10 (-exponent).toNat ≤ number

/-- The exponent of a fraction behind its letter. -/
def exponent? (text : Text) : Option Int := do
  let (negative, unsigned) := signed text
  let number : Int := numberOf 10 (← digitRun? isDigit unsigned)
  return if negative then -number else number

/-- Whether a text is a number with a fraction or an exponent that is not too large. -/
def isFraction (text : Text) : Bool :=
  let (negative, unsigned) := signed text
  if unsigned = ['i', 'n', 'f'] ∨ unsigned = ['n', 'a', 'n'] then true
  else
    let mantissa := unsigned.takeWhile fun c => c ≠ 'e' ∧ c ≠ 'E'
    let scale := unsigned.drop mantissa.length
    let whole := mantissa.takeWhile (· ≠ '.')
    let part := mantissa.drop whole.length
    let parsed := do
      let wholeDigits ← decimalDigits? whole
      let partDigits ← if part = [] then some [] else digitRun? isDigit (part.drop 1)
      let exponent ← if scale = [] then some 0 else exponent? (scale.drop 1)
      guard (part ≠ [] ∨ scale ≠ [])
      guard (negative ∨ ¬ overflows (wholeDigits ++ partDigits) (exponent - partDigits.length))
    parsed.isSome

/-- The number that a fixed count of decimal digits stands for. -/
def fixedNumber? (count : Nat) (text : Text) : Option Nat :=
  if text.length = count ∧ text.all isDigit then some (numberOf 10 text) else none

/-- The number of days of a month. -/
def daysIn (year month : Nat) : Nat :=
  if month = 2 then
    if year % 4 = 0 ∧ (year % 100 ≠ 0 ∨ year % 400 = 0) then 29 else 28
  else if month ∈ [4, 6, 9, 11] then 30
  else 31

/-- Whether a text is a date of the calendar. -/
def isDate (text : Text) : Bool :=
  match text.splitAt '-' with
  | [year, month, day] =>
    match fixedNumber? 4 year, fixedNumber? 2 month, fixedNumber? 2 day with
    | some year, some month, some day =>
      1 ≤ month && month ≤ 12 && 1 ≤ day && day ≤ daysIn year month
    | _, _, _ => false
  | _ => false

/-- Whether a text is an hour and a minute. -/
def isHourMinute (text : Text) : Bool :=
  match text.splitAt ':' with
  | [hour, minute] =>
    match fixedNumber? 2 hour, fixedNumber? 2 minute with
    | some hour, some minute => hour ≤ 23 && minute ≤ 59
    | _, _ => false
  | _ => false

/-- Whether a text is a second with an optional fraction. A minute may have a leap second. -/
def isSecond (text : Text) : Bool :=
  match text.splitAt '.' with
  | [second] => (fixedNumber? 2 second).any (· ≤ 60)
  | [second, part] => (fixedNumber? 2 second).any (· ≤ 60) && part ≠ [] && part.all isDigit
  | _ => false

/-- Whether a text is a time of the day. -/
def isTime (text : Text) : Bool :=
  isHourMinute (text.take 5) && (text.drop 5).head? = some ':' && isSecond (text.drop 6)

/-- Whether a text is a time of the day with an optional offset. -/
def isOffsetTime (text : Text) : Bool :=
  let time := text.takeWhile fun c => c ∉ ['Z', 'z', '+', '-']
  let offset := text.drop time.length
  isTime time &&
    match offset with
    | [] => true
    | ['Z'] | ['z'] => true
    | '+' :: rest | '-' :: rest => isHourMinute rest
    | _ => false

/-- Whether a text is a date, a time, or a date joined to a time. -/
def isDateTime (text : Text) : Bool :=
  let date := text.take 10
  isTime text || isDate text ||
    (isDate date &&
      match text.drop 10 with
      | 'T' :: time | 't' :: time | ' ' :: time => isOffsetTime time
      | _ => false)

/-- Whether a character can be part of a value that is not quoted. -/
def isScalarChar (c : Char) : Bool :=
  isDigit c || ('a' ≤ c && c ≤ 'z') || ('A' ≤ c && c ≤ 'Z') || c ∈ ['+', '-', '.', '_', ':']

/-- Splits off the characters of a value that is not quoted. A date and a time behind one space belong
together. -/
def scalarText (text : Text) : Text × Text :=
  let first := text.takeWhile isScalarChar
  let rest := text.drop first.length
  match rest with
  | ' ' :: more =>
    let second := more.takeWhile isScalarChar
    if isDate first && isOffsetTime second then (first ++ ' ' :: second, more.drop second.length)
    else (first, rest)
  | _ => (first, rest)

/-- The value that a text without quotes stands for. -/
def scalarValue? (text : Text) : Option Value :=
  if text = ['t', 'r', 'u', 'e'] then some (.boolean true)
  else if text = ['f', 'a', 'l', 's', 'e'] then some (.boolean false)
  else
    match integer? text with
    | some number => some (.integer number)
    | none =>
      if isFraction text then some .fraction
      else if isDateTime text then some .moment
      else none

end CallersFirst.Toml
