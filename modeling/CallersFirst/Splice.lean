import CallersFirst.Span
import CallersFirst.Text

/-! Replacement of one span of a text. -/

namespace CallersFirst

/-- A new text for one span of a source. -/
structure Splice where
  /-- The bytes that are replaced. -/
  span : Span
  /-- The text that takes their place. -/
  replacement : Text
deriving DecidableEq, Repr

namespace Splice

/-- The text with the span replaced, if both ends of the span are character boundaries of it. -/
def applyTo? (splice : Splice) (text : Text) : Option Text := do
  let (before, _) ← text.cut? splice.span.start
  let (_, after) ← text.cut? splice.span.stop
  return before ++ splice.replacement ++ after

/-- Applies one splice after the other. -/
def applyAll? (splices : List Splice) (text : Text) : Option Text :=
  splices.foldlM (fun current splice => splice.applyTo? current) text

/-- A splice keeps what stands before and after its span. -/
theorem applyTo?_eq_some {splice : Splice} {before between after : Text}
    (starts : before.byteSize = splice.span.start)
    (stops : (before ++ between).byteSize = splice.span.stop) :
    splice.applyTo? (before ++ between ++ after) = some (before ++ splice.replacement ++ after) := by
  -- The two cuts fall where the given parts meet.
  have first : Text.cut? (before ++ between ++ after) splice.span.start = some (before, between ++ after) :=
    Text.cut?_eq_some_iff.2 ⟨by simp, starts⟩
  have second : Text.cut? (before ++ between ++ after) splice.span.stop = some (before ++ between, after) :=
    Text.cut?_eq_some_iff.2 ⟨rfl, stops⟩
  simp only [applyTo?, first, second]
  rfl

end Splice

end CallersFirst
