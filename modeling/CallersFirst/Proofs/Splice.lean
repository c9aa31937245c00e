import CallersFirst.Analysis
import CallersFirst.Proofs.Text.Ink
import CallersFirst.Proofs.Text.Slice

/-! Splices that keep the ink of their span, made one after the other from back to front. -/

namespace CallersFirst

namespace Splice

/-- A splice that fits a text and replaces a part of it by one with the same ink. -/
structure KeepsInk (splice : Splice) (text : Text) : Prop where
  /-- The replaced bytes are a part of the text. -/
  fits : splice.span.Fits text
  /-- The new text has the ink of the old one. -/
  ink_eq : splice.replacement.ink = (text.slice splice.span.start splice.span.stop).ink

section Single

variable {splice : Splice} {text result : Text}

/-- A splice that fits a text replaces its span and nothing else. -/
theorem applyTo?_of_fits (fits : splice.span.Fits text) :
    splice.applyTo? text = some (text.slice 0 splice.span.start ++ splice.replacement ++
      text.slice splice.span.stop text.byteSize) := by
  -- The text is cut where the span starts and where it stops.
  rw [applyTo?, Text.cut?_eq fits.starts, Text.cut?_eq fits.stops]
  rfl

/-- What stands before a splice is the same in the text and in the result. -/
theorem exists_common_start (fits : splice.span.Fits text) (applied : splice.applyTo? text = some result) :
    ∃ before rest rest', text = before ++ rest ∧ result = before ++ rest' ∧
      before.byteSize = splice.span.start := by
  -- The new text stands behind everything that comes before the span.
  rw [applyTo?_of_fits fits, Option.some.injEq, List.append_assoc] at applied
  have whole := Text.slice_parts fits.starts fits.stops fits.ordered
  rw [List.append_assoc] at whole
  refine ⟨_, _, _, whole, applied.symm, ?_⟩
  rw [Text.byteSize_slice (Text.isBoundary_zero text) fits.starts (Nat.zero_le _), Nat.sub_zero]

/-- A splice that keeps the ink of its span keeps the ink of the whole text. -/
theorem KeepsInk.ink_applyTo? (keeps : splice.KeepsInk text)
    (applied : splice.applyTo? text = some result) : result.ink = text.ink := by
  -- The parts before and after the span are the same in both texts.
  rw [applyTo?_of_fits keeps.fits, Option.some.injEq] at applied
  rw [← applied]
  conv_rhs => rw [Text.slice_parts keeps.fits.starts keeps.fits.stops keeps.fits.ordered]
  simp only [Text.ink_append, keeps.ink_eq]

end Single

/-- A span that stops within a common start of two texts has the same slice in both. -/
theorem fits_of_common_start {before rest : Text} {span : Span} (fits : span.Fits (before ++ rest))
    (early : span.stop ≤ before.byteSize) (rest' : Text) :
    span.Fits (before ++ rest') ∧
      Text.slice (before ++ rest') span.start span.stop = Text.slice (before ++ rest) span.start span.stop := by
  obtain ⟨first, between, after, whole, startSize, stopSize⟩ :=
    fits.starts.exists_parts fits.stops fits.ordered
  -- The common start holds the span and perhaps more.
  obtain ⟨more, rfl, rfl⟩ : ∃ more, before = first ++ between ++ more ∧ after = more ++ rest := by
    rcases List.append_eq_append_iff.1 whole with ⟨more, same, rfl⟩ | ⟨more, rfl, rfl⟩
    · have nothing : more = [] := by
        rw [← Text.byteSize_eq_zero]
        rw [same, Text.byteSize_append] at stopSize
        omega
      subst nothing
      exact ⟨[], by simpa using same.symm, by simp⟩
    · exact ⟨more, rfl, rfl⟩
  have parts : first ++ between ++ more ++ rest' = first ++ between ++ (more ++ rest') := by simp
  refine ⟨⟨⟨first, between ++ (more ++ rest'), by simp, startSize⟩,
    ⟨first ++ between, more ++ rest', parts, stopSize⟩, fits.ordered⟩, ?_⟩
  rw [Text.slice_eq whole startSize stopSize, Text.slice_eq parts startSize stopSize]

/-- A splice that stops before another starts keeps its ink after the other is made. -/
theorem KeepsInk.of_applyTo? {earlier later : Splice} {text result : Text} (keeps : earlier.KeepsInk text)
    (fits : later.span.Fits text) (before : earlier.span.stop ≤ later.span.start)
    (applied : later.applyTo? text = some result) : earlier.KeepsInk result := by
  -- The earlier span lies in the start that both texts share.
  obtain ⟨start, rest, rest', rfl, rfl, size⟩ := exists_common_start fits applied
  obtain ⟨fits', same⟩ := fits_of_common_start keeps.fits (by omega) rest'
  exact ⟨fits', by rw [same]; exact keeps.ink_eq⟩

/-- Splices made from back to front, each before those already made, keep the ink of the text. -/
theorem ink_applyAll? {splices : List Splice} :
    ∀ {text result : Text}, splices.Pairwise (fun later earlier => earlier.span.stop ≤ later.span.start) →
      (∀ splice ∈ splices, splice.KeepsInk text) → applyAll? splices text = some result →
      result.ink = text.ink := by
  -- The first splice keeps the ink, and leaves the others as they were.
  induction splices with
  | nil =>
    intro text result _ _ applied
    simp only [applyAll?, List.foldlM_nil, Option.pure_def, Option.some.injEq] at applied
    rw [applied]
  | cons splice rest ih =>
    intro text result apart keeps applied
    obtain ⟨before, apart⟩ := List.pairwise_cons.1 apart
    simp only [applyAll?, List.foldlM_cons, Option.bind_eq_bind, Option.bind_eq_some_iff] at applied
    obtain ⟨current, made, applied⟩ := applied
    have keepsFirst := keeps splice (by simp)
    calc result.ink = current.ink := ih apart (fun other member =>
            (keeps other (by simp [member])).of_applyTo? keepsFirst.fits (before other member) made) applied
      _ = text.ink := keepsFirst.ink_applyTo? made

/-- Accepted splices come from the list, clash with none taken before and do not overlap one another. -/
theorem accepted_spec (taken splices : List Splice) :
    (accepted taken splices).Sublist splices ∧
      (∀ splice ∈ accepted taken splices, ∀ other ∈ taken, ¬ other.span.overlaps splice.span) ∧
      (accepted taken splices).Pairwise fun first second => ¬ first.span.overlaps second.span := by
  -- A splice that is accepted counts as taken for those after it.
  induction splices generalizing taken with
  | nil => simp [accepted]
  | cons splice rest ih =>
    rw [accepted]
    split
    · obtain ⟨part, clear, apart⟩ := ih taken
      exact ⟨part.cons splice, clear, apart⟩
    · rename_i fits
      obtain ⟨part, clear, apart⟩ := ih (splice :: taken)
      refine ⟨part.cons_cons splice, ?_, List.pairwise_cons.2 ⟨?_, apart⟩⟩
      · intro other member old oldMember
        rcases List.mem_cons.1 member with rfl | member
        · simp only [clashes, List.any_eq_true, not_exists, not_and] at fits
          exact fits old oldMember
        · exact clear other member old (by simp [oldMember])
      · exact fun other member => clear other member splice (by simp)

/-- Splices that overlap none of one another and are not empty stand apart from back to front. -/
theorem pairwise_backToFront {splices : List Splice}
    (apart : splices.Pairwise fun first second => ¬ first.span.overlaps second.span)
    (filled : ∀ splice ∈ splices, splice.span.start < splice.span.stop) :
    (backToFront splices).Pairwise fun later earlier => earlier.span.stop ≤ later.span.start := by
  have perm : (backToFront splices).Perm splices := List.mergeSort_perm _ _
  -- Not overlapping is mutual, so that sorting keeps it.
  have stillApart := (perm.pairwise_iff (fun {first second} (clear : ¬ first.span.overlaps second.span) => by
    rwa [Span.overlaps_comm])).2 apart
  have sorted : (backToFront splices).Pairwise fun later earlier => earlier.span.start ≤ later.span.start := by
    have sorted : (backToFront splices).Pairwise fun later earlier =>
        decide (earlier.span.start ≤ later.span.start) = true :=
      List.pairwise_mergeSort (by simp; omega) (by simp; omega) splices
    simpa only [decide_eq_true_eq] using sorted
  refine (stillApart.and sorted).imp_of_mem fun {later earlier} member _ ⟨clear, ordered⟩ => ?_
  have laterFilled := filled later (perm.mem_iff.1 member)
  simp only [Span.overlaps, Bool.and_eq_true, decide_eq_true_eq, not_and] at clear
  omega

end Splice

end CallersFirst
