import CallersFirst.CallableUnit
import CallersFirst.Proofs.Text.Slice
import Mathlib.Data.List.Nodup

/-! Units told apart by their names, and units placed on a text. -/

namespace CallersFirst

namespace CallableUnit

/-- A unit whose name is its own is the one found by that name. -/
theorem find?_name_eq_some_iff {units : List CallableUnit}
    (distinct : (units.map (·.name)).Nodup) {name : String} {unit : CallableUnit} :
    units.find? (·.name = name) = some unit ↔ unit ∈ units ∧ unit.name = name := by
  -- Whatever unit is found has the name, and only one unit has it.
  constructor
  · intro found
    exact ⟨List.mem_of_find?_eq_some found, by simpa using List.find?_some found⟩
  · rintro ⟨member, rfl⟩
    have exists_unit : (units.find? (·.name = unit.name)).isSome :=
      List.find?_isSome.2 ⟨unit, member, by simp⟩
    obtain ⟨other, found⟩ := Option.isSome_iff_exists.1 exists_unit
    have same : other.name = unit.name := by simpa using List.find?_some found
    rw [found, List.inj_on_of_nodup_map distinct (List.mem_of_find?_eq_some found) member same]

/-- A unit whose span and comments fit a text, the comments in order and before the span. -/
structure IsPlaced (source : Text) (unit : CallableUnit) : Prop where
  /-- The definition covers a part of the text. -/
  fits : unit.span.Fits source
  /-- Every comment covers a part of the text. -/
  comments_fit : ∀ comment ∈ unit.comments, comment.Fits source
  /-- Every comment stops before the next ones start. -/
  comments_apart : unit.comments.Pairwise fun first second => first.stop ≤ second.start
  /-- Every comment stops before the definition starts. -/
  comments_before : ∀ comment ∈ unit.comments, comment.stop ≤ unit.span.start

instance (source : Text) (unit : CallableUnit) : Decidable (unit.IsPlaced source) :=
  decidable_of_iff
    (unit.span.Fits source ∧ (∀ comment ∈ unit.comments, comment.Fits source) ∧
      unit.comments.Pairwise (fun first second => first.stop ≤ second.start) ∧
      ∀ comment ∈ unit.comments, comment.stop ≤ unit.span.start)
    ⟨fun ⟨fits, commentsFit, apart, before⟩ => ⟨fits, commentsFit, apart, before⟩,
      fun placed => ⟨placed.fits, placed.comments_fit, placed.comments_apart, placed.comments_before⟩⟩

section FullSpan

variable {source : Text} {unit : CallableUnit}

/-- A unit starts with its definition or with one of its comments. -/
theorem fullStart_cases (unit : CallableUnit) :
    unit.fullStart = unit.span.start ∨ ∃ comment ∈ unit.comments, unit.fullStart = comment.start := by
  -- The smaller of two starts is one of them.
  unfold fullStart
  split
  · exact .inl rfl
  · rename_i comment rest shape
    rcases Nat.le_total comment.start unit.span.start with before | after
    · exact .inr ⟨comment, by simp [shape], Nat.min_eq_left before⟩
    · exact .inl (Nat.min_eq_right after)

/-- A unit starts no earlier than its definition and all of its comments do. -/
theorem le_fullStart {floor : Nat} (low : floor ≤ unit.span.start)
    (comments : ∀ comment ∈ unit.comments, floor ≤ comment.start) : floor ≤ unit.fullStart := by
  -- The full start is one of the starts that are bounded.
  rcases unit.fullStart_cases with same | ⟨comment, member, same⟩
  · omega
  · have := comments comment member
    omega

/-- The comments of a placed unit together with its definition fit the text. -/
theorem IsPlaced.fullSpan_fits (placed : unit.IsPlaced source) : unit.fullSpan.Fits source := by
  -- Wherever the unit starts, a comment or its definition starts there.
  refine ⟨?_, placed.fits.stops, Nat.le_trans unit.fullStart_le placed.fits.ordered⟩
  rcases unit.fullStart_cases with same | ⟨comment, member, same⟩
  · simpa only [fullSpan, same] using placed.fits.starts
  · simpa only [fullSpan, same] using (placed.comments_fit comment member).starts

end FullSpan

end CallableUnit

end CallersFirst
