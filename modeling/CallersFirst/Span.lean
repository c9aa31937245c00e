/-! Half-open byte ranges of a source text. -/

namespace CallersFirst

/-- The bytes from `start` up to, but not including, `stop`. -/
structure Span where
  /-- The first byte of the range. -/
  start : Nat
  /-- The byte after the range. -/
  stop : Nat
deriving DecidableEq, Repr

namespace Span

/-- The number of bytes in a span, none if it is reversed. -/
def length (span : Span) : Nat :=
  span.stop - span.start

/-- Whether a span holds no byte. -/
def isEmpty (span : Span) : Bool :=
  span.length == 0

/-- Whether each of two spans starts before the other ends. -/
def overlaps (span other : Span) : Bool :=
  span.start < other.stop && other.start < span.stop

/-- Spans overlap exactly if each of them starts before the other stops. -/
theorem overlaps_iff {span other : Span} :
    span.overlaps other ↔ span.start < other.stop ∧ other.start < span.stop := by
  simp only [overlaps, Bool.and_eq_true, decide_eq_true_eq]

/-- Overlapping is mutual. -/
theorem overlaps_comm (span other : Span) : span.overlaps other = other.overlaps span := by
  -- The two comparisons change places.
  simp only [overlaps, Bool.and_comm]

end Span

end CallersFirst
