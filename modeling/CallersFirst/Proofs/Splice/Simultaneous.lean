import CallersFirst.Proofs.Splice

/-! Splices made one after the other, from back to front, are splices made all at once. -/

namespace CallersFirst

namespace Splice

/-- A text from an offset on, with all of the given splices, listed from front to back, made at once. -/
def madeAtOnce (text : Text) (offset : Nat) : List Splice → Text
  -- Behind the last splice the text goes on as it was.
  | [] => text.slice offset text.byteSize
  -- Up to a splice the text is as it was, and behind its span the next splice is looked for.
  | splice :: rest =>
    text.slice offset splice.span.start ++ splice.replacement ++ madeAtOnce text splice.span.stop rest

section BackToFront

variable {text result : Text} {splice : Splice}

/-- The splices after the first one are made in the text that it leaves. -/
theorem applyAll?_cons (applied : splice.applyTo? text = some result) (rest : List Splice) :
    applyAll? (splice :: rest) text = applyAll? rest result := by
  simp only [applyAll?, List.foldlM_cons, applied]
  rfl

/-- A slice that stops before a splice starts is the same after the splice is made. -/
theorem slice_of_applyTo? (fits : splice.span.Fits text) (applied : splice.applyTo? text = some result)
    {span : Span} (spanFits : span.Fits text) (before : span.stop ≤ splice.span.start) :
    span.Fits result ∧ result.slice span.start span.stop = text.slice span.start span.stop := by
  -- The span lies in the start that both texts share.
  obtain ⟨start, rest, rest', rfl, rfl, size⟩ := exists_common_start fits applied
  exact fits_of_common_start spanFits (by omega) rest'

/-- What a splice puts behind a boundary before it: the text in between, the new text and the rest. -/
theorem slice_to_end_of_applyTo? (fits : splice.span.Fits text)
    (applied : splice.applyTo? text = some result) {offset : Nat} (boundary : text.IsBoundary offset)
    (before : offset ≤ splice.span.start) :
    result.slice offset result.byteSize = text.slice offset splice.span.start ++ splice.replacement ++
      text.slice splice.span.stop text.byteSize := by
  rw [applyTo?_of_fits fits, Option.some.injEq] at applied
  -- What stands before the splice is cut at the boundary.
  have leading := Text.slice_append_slice (Text.isBoundary_zero text) boundary fits.starts
    (Nat.zero_le _) before
  have size : (text.slice 0 offset).byteSize = offset := by
    rw [Text.byteSize_slice (Text.isBoundary_zero text) boundary (Nat.zero_le _), Nat.sub_zero]
  have parts : result = text.slice 0 offset ++ (text.slice offset splice.span.start ++
      splice.replacement ++ text.slice splice.span.stop text.byteSize) ++ [] := by
    rw [← applied, ← leading]
    simp
  refine Text.slice_eq parts size ?_
  conv_rhs => rw [parts]
  simp

/-- A splice behind some others can be made before them. -/
theorem madeAtOnce_append (fits : splice.span.Fits text) (applied : splice.applyTo? text = some result)
    (front : List Splice) : ∀ {offset : Nat}, text.IsBoundary offset → offset ≤ splice.span.start →
      (∀ other ∈ front, other.span.Fits text ∧ other.span.stop ≤ splice.span.start) →
      front.Pairwise (fun first second => first.span.stop ≤ second.span.start) →
      (∀ other ∈ front, offset ≤ other.span.start) →
      madeAtOnce result offset front = madeAtOnce text offset (front ++ [splice]) := by
  -- Up to the splice both texts agree, and behind it one shows what the other has still to be given.
  induction front with
  | nil =>
    intro offset boundary before _ _ _
    exact slice_to_end_of_applyTo? fits applied boundary before
  | cons first rest ih =>
    intro offset boundary before early apart behind
    obtain ⟨⟨firstFits, firstBefore⟩, restEarly⟩ := List.forall_mem_cons.1 early
    obtain ⟨firstApart, restApart⟩ := List.pairwise_cons.1 apart
    have ordered := firstFits.ordered
    have onward := behind first (List.mem_cons_self ..)
    have gap : Span.Fits ⟨offset, first.span.start⟩ text := ⟨boundary, firstFits.starts, onward⟩
    have same := (slice_of_applyTo? fits applied gap (by simp only; omega)).2
    simp only at same
    rw [List.cons_append, madeAtOnce, madeAtOnce, same]
    exact congrArg _ (ih firstFits.stops firstBefore restEarly restApart firstApart)

variable {splices : List Splice}

/-- Splices that stand apart, made from back to front, each find their span where it was. -/
theorem exists_current_of_backToFront :
    ∀ {text : Text}, splices.Pairwise (fun later earlier => earlier.span.stop ≤ later.span.start) →
      (∀ splice ∈ splices, splice.span.Fits text) → ∀ {done : List Splice} {splice : Splice}
      {rest : List Splice}, splices = done ++ splice :: rest →
      ∃ current, applyAll? done text = some current ∧ splice.span.Fits current := by
  -- Each splice that is made leaves those before it in place.
  induction splices with
  | nil => simp
  | cons first others ih =>
    intro text apart fits done splice rest shape
    obtain ⟨before, othersApart⟩ := List.pairwise_cons.1 apart
    obtain ⟨firstFits, othersFit⟩ := List.forall_mem_cons.1 fits
    cases done with
    | nil =>
      cases shape
      exact ⟨text, rfl, firstFits⟩
    | cons made done =>
      obtain ⟨rfl, remaining⟩ := List.cons.inj shape
      have applied := applyTo?_of_fits firstFits
      obtain ⟨current, further, found⟩ := ih othersApart
        (fun other member => (slice_of_applyTo? firstFits applied (othersFit other member)
          (before other member)).1) remaining
      exact ⟨current, (applyAll?_cons applied done).trans further, found⟩

/-- Splices that stand apart, made from back to front, give what making them at once gives. -/
theorem applyAll?_eq_madeAtOnce :
    ∀ {text : Text}, splices.Pairwise (fun later earlier => earlier.span.stop ≤ later.span.start) →
      (∀ splice ∈ splices, splice.span.Fits text) →
      applyAll? splices text = some (madeAtOnce text 0 splices.reverse) := by
  -- The first splice made is the last one in the text, and the others come before it.
  induction splices with
  | nil =>
    intro text _ _
    simp only [applyAll?, List.foldlM_nil, Option.pure_def, List.reverse_nil, madeAtOnce, Text.slice_whole]
  | cons splice rest ih =>
    intro text apart fits
    obtain ⟨before, restApart⟩ := List.pairwise_cons.1 apart
    obtain ⟨spliceFits, restFit⟩ := List.forall_mem_cons.1 fits
    have applied := applyTo?_of_fits spliceFits
    have further := ih restApart fun other member =>
      (slice_of_applyTo? spliceFits applied (restFit other member) (before other member)).1
    have same := madeAtOnce_append spliceFits applied rest.reverse (Text.isBoundary_zero text)
      (Nat.zero_le _) (fun other member => ⟨restFit other (List.mem_reverse.1 member),
        before other (List.mem_reverse.1 member)⟩) (List.pairwise_reverse.2 restApart) (by simp)
    rw [List.reverse_cons, ← same, ← further]
    exact applyAll?_cons applied rest

end BackToFront

/-- Every splice is accepted or deferred. -/
theorem length_accepted_add_length_deferred (taken splices : List Splice) :
    (accepted taken splices).length + (deferred taken splices).length = splices.length := by
  -- Both lists ask the same question of each splice, with the same splices taken before it.
  induction splices generalizing taken with
  | nil => rfl
  | cons splice rest ih =>
    rw [accepted, deferred]
    by_cases clash : splice.clashes taken
    · simp only [if_pos clash, List.length_cons]
      have := ih taken
      omega
    · simp only [if_neg clash, List.length_cons]
      have := ih (splice :: taken)
      omega

/-- The first of some splices is always accepted. -/
theorem accepted_nil_eq_nil_iff {splices : List Splice} : accepted [] splices = [] ↔ splices = [] := by
  cases splices with
  | nil => simp [accepted]
  | cons splice rest => simp [accepted, clashes]

/-- Deferred splices come from the list. -/
theorem deferred_sublist (taken splices : List Splice) : (deferred taken splices).Sublist splices := by
  induction splices generalizing taken with
  | nil => simp [deferred]
  | cons splice rest ih =>
    rw [deferred]
    -- A splice that overlaps is deferred, and any other is taken.
    split
    · exact (ih taken).cons_cons splice
    · exact (ih _).cons splice

/-- A deferred splice overlaps an accepted one that comes before it. -/
theorem exists_accepted_of_mem_deferred {splices : List Splice} :
    ∀ {taken : List Splice} {splice : Splice}, splice ∈ deferred taken splices →
      (∃ other ∈ taken, other.span.overlaps splice.span) ∨
        ∃ other ∈ accepted taken splices, [other, splice].Sublist splices ∧
          other.span.overlaps splice.span := by
  -- What is taken when a splice is looked at was taken at the start or has been accepted since.
  induction splices with
  | nil => simp [deferred]
  | cons first rest ih =>
    intro taken splice member
    rw [deferred] at member
    rw [accepted]
    by_cases clash : first.clashes taken
    · rw [if_pos clash] at member ⊢
      rcases List.mem_cons.1 member with rfl | later
      · -- The splice itself overlaps one of those taken before.
        simp only [clashes, List.any_eq_true] at clash
        exact .inl clash
      · rcases ih later with old | ⟨other, found, ordered, overlap⟩
        · exact .inl old
        · exact .inr ⟨other, found, ordered.cons first, overlap⟩
    · rw [if_neg clash] at member ⊢
      rcases ih member with ⟨other, found, overlap⟩ | ⟨other, found, ordered, overlap⟩
      · rcases List.mem_cons.1 found with rfl | old
        · -- The first splice was accepted, and the deferred one comes later.
          have later : splice ∈ rest := (deferred_sublist _ _).subset member
          exact .inr ⟨other, List.mem_cons_self .., (List.singleton_sublist.2 later).cons_cons other, overlap⟩
        · exact .inl ⟨other, old, overlap⟩
      · exact .inr ⟨other, List.mem_cons_of_mem _ found, ordered.cons first, overlap⟩

end Splice

end CallersFirst
