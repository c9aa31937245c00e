import CallersFirst.Span
import CallersFirst.Text
import Mathlib.Data.List.Basic

/-! Slices of a text between character boundaries, and how they join. -/

namespace CallersFirst

namespace Text

/-- An offset at an end of a text or between two of its characters. -/
def IsBoundary (text : Text) (offset : Nat) : Prop :=
  ∃ before after, text = before ++ after ∧ before.byteSize = offset

section Boundary

variable {text : Text} {start middle stop offset : Nat}

/-- A text can be cut exactly at its boundaries. -/
theorem isBoundary_iff_isSome_cut? : text.IsBoundary offset ↔ (text.cut? offset).isSome := by
  -- A cut gives the two parts, and the two parts determine the cut.
  rw [Option.isSome_iff_exists, IsBoundary]
  constructor
  · rintro ⟨before, after, parts⟩
    exact ⟨(before, after), cut?_eq_some_iff.2 parts⟩
  · rintro ⟨⟨before, after⟩, found⟩
    exact ⟨before, after, cut?_eq_some_iff.1 found⟩

instance (text : Text) (offset : Nat) : Decidable (text.IsBoundary offset) :=
  decidable_of_iff _ isBoundary_iff_isSome_cut?.symm

/-- A text starts at a boundary. -/
theorem isBoundary_zero (text : Text) : text.IsBoundary 0 :=
  ⟨[], text, rfl, rfl⟩

/-- A text ends at a boundary. -/
theorem isBoundary_byteSize (text : Text) : text.IsBoundary text.byteSize :=
  ⟨text, [], by simp, rfl⟩

/-- Boundaries lie within the text. -/
theorem IsBoundary.le_byteSize (boundary : text.IsBoundary offset) : offset ≤ text.byteSize := by
  obtain ⟨before, after, rfl, rfl⟩ := boundary
  simp

/-- A boundary splits a text in one way only. -/
theorem append_inj_of_byteSize {before after before' after' : Text}
    (same : before ++ after = before' ++ after') (size : before.byteSize = before'.byteSize) :
    before = before' ∧ after = after' := by
  -- Both splits are what the cut at their common size gives.
  have first : cut? (before ++ after) before.byteSize = some (before, after) :=
    cut?_eq_some_iff.2 ⟨rfl, rfl⟩
  have second : cut? (before ++ after) before.byteSize = some (before', after') :=
    cut?_eq_some_iff.2 ⟨same, size.symm⟩
  simpa using first.symm.trans second

/-- Between two boundaries in order lies a part of the text. -/
theorem IsBoundary.exists_parts (starts : text.IsBoundary start) (stops : text.IsBoundary stop)
    (ordered : start ≤ stop) :
    ∃ before between after, text = before ++ between ++ after ∧ before.byteSize = start ∧
      (before ++ between).byteSize = stop := by
  obtain ⟨before, rest, rfl, startSize⟩ := starts
  obtain ⟨whole, after, same, stopSize⟩ := stops
  -- The shorter of two beginnings of one text starts the longer one.
  rcases List.append_eq_append_iff.1 same with ⟨between, rfl, rfl⟩ | ⟨more, rfl, rfl⟩
  · exact ⟨before, between, after, by simp, startSize, stopSize⟩
  · have nothing : more = [] := by
      rw [← byteSize_eq_zero]
      simp only [byteSize_append] at startSize
      omega
    subst nothing
    exact ⟨whole, [], rest, by simp, by simpa using startSize, by simpa using stopSize⟩

/-- There is a slice between two offsets exactly if they are boundaries in order. -/
theorem isSome_slice?_iff :
    (text.slice? start stop).isSome ↔ text.IsBoundary start ∧ text.IsBoundary stop ∧ start ≤ stop := by
  -- A slice has its ends on boundaries, and between two boundaries there is one.
  rw [Option.isSome_iff_exists]
  simp only [slice?_eq_some_iff]
  constructor
  · rintro ⟨between, before, after, rfl, rfl, rfl⟩
    exact ⟨⟨before, between ++ after, by simp, rfl⟩, ⟨before ++ between, after, rfl, rfl⟩, by simp⟩
  · rintro ⟨starts, stops, ordered⟩
    obtain ⟨before, between, after, parts⟩ := starts.exists_parts stops ordered
    exact ⟨between, before, after, parts⟩

/-- Between two boundaries in order there is a slice. -/
theorem slice?_eq (starts : text.IsBoundary start) (stops : text.IsBoundary stop) (ordered : start ≤ stop) :
    text.slice? start stop = some (text.slice start stop) := by
  obtain ⟨between, found⟩ := Option.isSome_iff_exists.1 (isSome_slice?_iff.2 ⟨starts, stops, ordered⟩)
  rw [slice, found, Option.getD_some]

/-- The slice between two boundaries is the part of the text that lies there. -/
theorem slice_eq {before between after : Text} (parts : text = before ++ between ++ after)
    (starts : before.byteSize = start) (stops : (before ++ between).byteSize = stop) :
    text.slice start stop = between := by
  rw [slice, slice?_eq_some_iff.2 ⟨before, after, parts, starts, stops⟩, Option.getD_some]

/-- The whole text is the slice from its start to its end. -/
theorem slice_whole (text : Text) : text.slice 0 text.byteSize = text :=
  slice_eq (show text = [] ++ text ++ [] by simp) rfl rfl

/-- A slice has as many bytes as lie between its ends. -/
theorem byteSize_slice (starts : text.IsBoundary start) (stops : text.IsBoundary stop)
    (ordered : start ≤ stop) : (text.slice start stop).byteSize = stop - start := by
  -- The bytes up to the end are those before the slice and those of the slice.
  obtain ⟨before, between, after, parts, startSize, stopSize⟩ := starts.exists_parts stops ordered
  rw [slice_eq parts startSize stopSize]
  simp only [byteSize_append] at stopSize
  omega

/-- Two slices that share a boundary join to one. -/
theorem slice_append_slice (starts : text.IsBoundary start) (meets : text.IsBoundary middle)
    (stops : text.IsBoundary stop) (ordered : start ≤ middle) (onward : middle ≤ stop) :
    text.slice start middle ++ text.slice middle stop = text.slice start stop := by
  obtain ⟨before, first, rest, whole, startSize, middleSize⟩ := starts.exists_parts meets ordered
  obtain ⟨before', second, after, whole', middleSize', stopSize⟩ := meets.exists_parts stops onward
  -- What stands before the common boundary is the same in both.
  have same : before ++ first = before' ∧ rest = second ++ after :=
    append_inj_of_byteSize (by rw [← whole, whole', List.append_assoc]) (by rw [middleSize, middleSize'])
  obtain ⟨rfl, rfl⟩ := same
  rw [slice_eq whole startSize middleSize, slice_eq whole' middleSize' stopSize]
  exact (slice_eq (by simpa using whole') startSize (by simpa using stopSize)).symm

/-- A cut at a boundary gives the slices before and behind it. -/
theorem cut?_eq (boundary : text.IsBoundary offset) :
    text.cut? offset = some (text.slice 0 offset, text.slice offset text.byteSize) := by
  rw [cut?_eq_some_iff]
  constructor
  · rw [slice_append_slice (isBoundary_zero text) boundary (isBoundary_byteSize text) (Nat.zero_le _)
      boundary.le_byteSize, slice_whole]
  · rw [byteSize_slice (isBoundary_zero text) boundary (Nat.zero_le _), Nat.sub_zero]

/-- A text is what stands before a slice, the slice and what stands after it. -/
theorem slice_parts (starts : text.IsBoundary start) (stops : text.IsBoundary stop)
    (ordered : start ≤ stop) :
    text = text.slice 0 start ++ text.slice start stop ++ text.slice stop text.byteSize := by
  -- The three slices meet at the two boundaries.
  rw [slice_append_slice (isBoundary_zero text) starts stops (Nat.zero_le _) ordered,
    slice_append_slice (isBoundary_zero text) stops (isBoundary_byteSize text) (Nat.zero_le _)
      stops.le_byteSize, slice_whole]

end Boundary

end Text

/-- A span whose ends are boundaries of a text, in order. -/
structure Span.Fits (span : Span) (text : Text) : Prop where
  /-- The span starts between two characters. -/
  starts : text.IsBoundary span.start
  /-- The span stops between two characters. -/
  stops : text.IsBoundary span.stop
  /-- The span does not stop before it starts. -/
  ordered : span.start ≤ span.stop

/-- A span fits a text exactly if the text has a slice there. -/
theorem Span.fits_iff_isSome_slice? {span : Span} {text : Text} :
    span.Fits text ↔ (text.slice? span.start span.stop).isSome := by
  -- The three conditions are those for a slice to exist.
  rw [Text.isSome_slice?_iff]
  exact ⟨fun fits => ⟨fits.starts, fits.stops, fits.ordered⟩, fun ⟨starts, stops, ordered⟩ =>
    ⟨starts, stops, ordered⟩⟩

instance (span : Span) (text : Text) : Decidable (span.Fits text) :=
  decidable_of_iff _ Span.fits_iff_isSome_slice?.symm

/-- A span that an offset does not fall into. -/
def Span.IsUncutAt (span : Span) (offset : Nat) : Prop :=
  span.stop ≤ offset ∨ offset ≤ span.start

/-- A span that lies inside another. -/
def Span.IsInside (inner outer : Span) : Prop :=
  outer.start ≤ inner.start ∧ inner.stop ≤ outer.stop

instance (inner outer : Span) : Decidable (inner.IsInside outer) :=
  inferInstanceAs (Decidable (_ ∧ _))

/-- The slice of a span is that of a span inside it, with what stands before and behind it there. -/
theorem Span.IsInside.slice_parts {text : Text} {inner outer : Span} (inside : inner.IsInside outer)
    (innerFits : inner.Fits text) (outerFits : outer.Fits text) :
    text.slice outer.start outer.stop = text.slice outer.start inner.start ++
      text.slice inner.start inner.stop ++ text.slice inner.stop outer.stop := by
  have ordered := innerFits.ordered
  rw [Text.slice_append_slice outerFits.starts innerFits.starts innerFits.stops inside.1 ordered,
    Text.slice_append_slice outerFits.starts innerFits.stops outerFits.stops
      (Nat.le_trans inside.1 ordered) inside.2]

/-- A span is not blank if a span inside it is not. -/
theorem Span.IsInside.ink {text : Text} {inner outer : Span} (inside : inner.IsInside outer)
    (innerFits : inner.Fits text) (outerFits : outer.Fits text)
    (ink : ¬ (text.slice inner.start inner.stop).isBlankText) :
    ¬ (text.slice outer.start outer.stop).isBlankText := by
  rw [inside.slice_parts innerFits outerFits]
  simp only [Text.isBlankText, List.all_append, Bool.and_eq_true, not_and] at ink ⊢
  exact fun both => absurd both.2 ink

/-- A span of some text other than blanks has a byte. -/
theorem Span.Fits.lt_of_ink {text : Text} {span : Span} (fits : span.Fits text)
    (ink : ¬ (text.slice span.start span.stop).isBlankText) : span.start < span.stop := by
  have ordered := fits.ordered
  by_contra empty
  have size := Text.byteSize_slice fits.starts fits.stops ordered
  rw [Nat.sub_eq_zero_of_le (by omega), Text.byteSize_eq_zero] at size
  exact ink (by rw [size]; rfl)

end CallersFirst
