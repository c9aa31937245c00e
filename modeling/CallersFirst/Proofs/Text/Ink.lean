import CallersFirst.Text
import Mathlib.Data.Multiset.AddSub
import Mathlib.Data.Multiset.Filter

/-! The ink of a text: its characters other than blanks, counted. -/

namespace CallersFirst

namespace Text

/-- The characters of a text other than blanks, each as often as it occurs. -/
def ink (text : Text) : Multiset Char :=
  ↑(text.filter fun c => !isBlank c)

/-- Joining texts adds their ink. -/
@[simp] theorem ink_append (left right : Text) : ink (left ++ right) = ink left + ink right := by
  simp [ink]

/-- A text of nothing but blanks has no ink. -/
theorem ink_eq_zero_of_isBlankText {text : Text} (blank : text.isBlankText) : text.ink = 0 := by
  -- No character passes the filter.
  simp only [ink, Multiset.coe_eq_zero, List.filter_eq_nil_iff, Bool.not_eq_true', Bool.not_eq_false]
  exact List.all_eq_true.1 blank

end Text

end CallersFirst
