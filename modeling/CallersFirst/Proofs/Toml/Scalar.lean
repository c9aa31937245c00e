import CallersFirst.Proofs.Toml.Quoted
import CallersFirst.Toml.Scalar

/-! Numbers and truth values read back as what they were written for. -/

namespace CallersFirst.Toml

section Digits

variable {c : Char} {number : Nat} {text : Text}

/-- A number is written with digits only. -/
theorem isDigit_of_mem_decimal (member : c ∈ decimal number) : isDigit c :=
  Nat.isDigit_of_mem_toDigits (by decide) (by decide) member

/-- A number is written with at least one digit. -/
theorem decimal_ne_nil (number : Nat) : decimal number ≠ [] :=
  Nat.toDigits_ne_nil

/-- Only the number zero starts with a zero. -/
theorem head?_decimal_ne (positive : 0 < number) : (decimal number).head? ≠ some '0' := by
  -- All digits but the last are those of a tenth of the number.
  induction number using Nat.strongRecOn with
  | ind number ih =>
    rw [decimal, Nat.toDigits_eq_if (by decide)]
    split
    · simp
      omega
    · have tenth := ih (number / 10) (by omega) (by omega)
      obtain ⟨c, more, shape⟩ := List.exists_cons_of_ne_nil (decimal_ne_nil (number / 10))
      rw [decimal] at shape tenth
      simpa [shape] using tenth

/-- A decimal digit counts for as much as a hexadecimal one. -/
theorem hexDigit?_of_isDigit (digit : isDigit c) : hexDigit? c = some (c.toNat - '0'.toNat) := by
  rw [hexDigit?, if_pos (by simpa [isDigit] using digit)]

/-- The digits of a number stand for it. -/
theorem numberOf_decimal (number : Nat) : numberOf 10 (decimal number) = number := by
  -- A decimal digit has the same value as a hexadecimal one, so both readings are one fold.
  have general : ∀ (digits : Text) (start : Nat), (∀ c ∈ digits, isDigit c) →
      digits.foldl (fun number digit => 10 * number + (hexDigit? digit).getD 0) start =
        Nat.ofDigitChars 10 digits start := by
    intro digits
    induction digits with
    | nil => intros; rfl
    | cons c digits ih =>
      intro start all
      obtain ⟨first, others⟩ := List.forall_mem_cons.1 all
      rw [List.foldl_cons, ih _ others, hexDigit?_of_isDigit first]
      rfl
  rw [numberOf, general _ 0 fun c member => isDigit_of_mem_decimal member]
  exact Nat.ofDigitChars_ten_toDigits

/-- A run of digits without underscores is read as it is. -/
theorem digitRun?_eq_self (some_digit : text ≠ []) (all : ∀ c ∈ text, isDigit c) :
    digitRun? isDigit text = some text := by
  induction text with
  | nil => exact absurd rfl some_digit
  | cons c text ih =>
    obtain ⟨first, others⟩ := List.forall_mem_cons.1 all
    cases text with
    | nil => simp [digitRun?, first]
    | cons next text =>
      -- The next digit is no underscore, so nothing is skipped in front of it.
      have noScore : next ≠ '_' := by
        rintro rfl
        simp [isDigit] at others
      rw [digitRun?, if_pos first, ih (by simp) others]
      · rfl
      · simp
      · simp [noScore]

/-- Digits without a sign are read as a decimal number. -/
theorem integer?_eq_of_digits (all : ∀ c ∈ text, isDigit c) :
    integer? text = (decimalDigits? text).bind fun digits => bounded? (numberOf 10 digits) := by
  have noSign : signed text = (false, text) := by
    unfold signed
    split <;> simp_all [isDigit]
  rw [integer?, noSign]
  · rfl
  -- No letter of another base is among the digits.
  all_goals
    intro rest same
    simp [same, isDigit] at all

/-- The digits of a number are read as that number, if it is small enough. -/
theorem integer?_decimal (small : number < 9223372036854775808) : integer? (decimal number) = some (number : Int) := by
  have digits : ∀ c ∈ decimal number, isDigit c := fun c member => isDigit_of_mem_decimal member
  -- There is no zero in front, unless it is the only digit.
  have lead : decimal number = ['0'] ∨ (decimal number).head? ≠ some '0' := by
    obtain rfl | positive := Nat.eq_zero_or_pos number
    · exact .inl rfl
    · exact .inr (head?_decimal_ne positive)
  have read : decimalDigits? (decimal number) = some (decimal number) := by
    rw [decimalDigits?, digitRun?_eq_self (decimal_ne_nil number) digits, Option.bind_eq_bind, Option.bind_some,
      (Option.guard_eq_some' ()).2 lead]
    rfl
  rw [integer?_eq_of_digits digits, read, Option.bind_some, numberOf_decimal, bounded?, if_pos (by omega)]

/-- A written number that is not too large is read back. -/
theorem scalarValue?_decimal (small : number < 9223372036854775808) :
    scalarValue? (decimal number) = some (.integer number) := by
  have digits : ∀ c ∈ decimal number, isDigit c := fun c member => isDigit_of_mem_decimal member
  -- A number is neither of the two words that are tried first.
  have noTruth : decimal number ≠ ['t', 'r', 'u', 'e'] := by
    intro same
    simp [same, isDigit] at digits
  have noFalsehood : decimal number ≠ ['f', 'a', 'l', 's', 'e'] := by
    intro same
    simp [same, isDigit] at digits
  rw [scalarValue?, if_neg noTruth, if_neg noFalsehood, integer?_decimal small]

/-- A written truth value is read back. -/
theorem scalarValue?_boolean (flag : Bool) : scalarValue? (boolean flag) = some (.boolean flag) := by
  cases flag with
  | false => rfl
  | true => rfl

end Digits

/-- The characters of a value without quotes are split off up to the end of the line. -/
theorem scalarText_append {text : Text} (all : ∀ c ∈ text, isScalarChar c) (rest : Text) :
    scalarText (text ++ '\n' :: rest) = (text, '\n' :: rest) := by
  have first : (text ++ '\n' :: rest).takeWhile isScalarChar = text := by
    rw [List.takeWhile_append_of_pos all, List.takeWhile_cons_of_neg (by decide), List.append_nil]
  simp only [scalarText, first, List.drop_left]
  rfl

/-- Digits can be part of a value that is not quoted. -/
theorem isScalarChar_of_mem_decimal {number : Nat} : ∀ c ∈ decimal number, isScalarChar c := by
  intro c member
  simp [isScalarChar, isDigit_of_mem_decimal member]

/-- The letters of truth values can be part of a value that is not quoted. -/
theorem isScalarChar_of_mem_boolean (flag : Bool) : ∀ c ∈ boolean flag, isScalarChar c := by
  rw [← List.all_eq_true]
  cases flag with
  | false => rfl
  | true => rfl

end CallersFirst.Toml
