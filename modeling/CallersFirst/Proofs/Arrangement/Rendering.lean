import CallersFirst.Proofs.Arrangement.Layout

/-! What a planned splice covers, and the text that it leads to. -/

namespace CallersFirst

/-- With as many joiners in front, every piece stands behind its own joiner. -/
theorem following_eq_flatten {pieces joiners : List Text} (length : joiners.length = pieces.length) :
    following pieces joiners = (List.zipWith (· ++ ·) joiners pieces).flatten := by
  -- Joiners and pieces are used up together.
  induction pieces generalizing joiners with
  | nil => simp [following]
  | cons piece pieces ih =>
    cases joiners with
    | nil => simp at length
    | cons joiner joiners => simp [following, ih (Nat.succ.inj length)]

/-- With one joiner between each two, every piece but the first stands behind its own joiner. -/
theorem weave_eq_flatten {pieces joiners : List Text} (length : joiners.length + 1 = pieces.length) :
    weave pieces joiners = (List.zipWith (· ++ ·) ([] :: joiners) pieces).flatten := by
  have inFront : ([] :: joiners).length = pieces.length := length
  rw [weave_eq_following, following_eq_flatten inFront]

/-- An empty line is blank. -/
theorem Text.isBlankText_separator (text : Text) (offset : Nat) : (text.separator offset).isBlankText := by
  -- Line breaks of either kind are blank, and so is the indentation behind them.
  have lineBreak : ∀ crlf : Bool, Text.isBlankText (if crlf then ['\r', '\n'] else ['\n']) := by decide
  have indented := text.isBlankText_indentation offset
  have broken := lineBreak (text.usesCrlf offset)
  simp only [Text.isBlankText, Text.separator, List.all_append, Bool.and_eq_true] at *
  exact ⟨⟨broken, broken⟩, indented⟩

namespace Arrangement

section Sound

variable {text : Text} {arrangement : Arrangement}

/-- Gaps are kept exactly if one of them holds something other than blanks. -/
theorem isInterleaved_iff :
    arrangement.isInterleaved text ↔ ∃ gap ∈ arrangement.gaps text, ¬ gap.isBlankText := by
  simp [isInterleaved]

/-- Every unit lies within the block. -/
theorem IsSound.within_block (sound : arrangement.IsSound text) {unit : CallableUnit}
    (member : unit ∈ arrangement.source) :
    arrangement.block.start ≤ unit.fullStart ∧ unit.span.stop ≤ arrangement.block.stop := by
  obtain ⟨placed, apart, _⟩ := sound
  have width := (placed unit member).fullSpan_fits.ordered
  constructor
  · -- The block starts with the first unit, which stops before all others start.
    obtain ⟨first, rest, shape⟩ := List.exists_cons_of_ne_nil (List.ne_nil_of_mem member)
    have start : arrangement.block.start = first.fullStart := by simp [block, shape]
    rw [shape] at placed apart member
    rw [start]
    rcases List.mem_cons.1 member with rfl | later
    · exact Nat.le_refl _
    · have firstWidth := (placed first (List.mem_cons_self ..)).fullSpan_fits.ordered
      exact Nat.le_trans firstWidth ((List.pairwise_cons.1 apart).1 unit later)
  · -- It stops with the last unit, before which all others stop.
    obtain empty | ⟨front, last, shape⟩ := List.eq_nil_or_concat arrangement.source
    · simp [empty] at member
    · have stop : arrangement.block.stop = last.span.stop := by simp [block, shape]
      rw [shape, List.concat_eq_append] at placed apart member
      rw [stop]
      rcases List.mem_append.1 member with earlier | isLast
      · have lastWidth := (placed last (by simp)).fullSpan_fits.ordered
        have before := (List.pairwise_append.1 apart).2.2 unit earlier last (by simp)
        exact Nat.le_trans before lastWidth
      · rw [List.mem_singleton.1 isLast]

/-- Pieces that change places around gaps that stay take no more bytes than before. -/
theorem IsSound.byteSize_replacement (sound : arrangement.IsSound text)
    (some_unit : arrangement.source ≠ []) (interleaved : arrangement.isInterleaved text) :
    (arrangement.replacement text).byteSize =
      (text.slice arrangement.block.start arrangement.block.stop).byteSize := by
  have length := length_gaps some_unit text
  obtain ⟨_, _, whole⟩ := sound.block_spec some_unit
  -- Both sides are the same sizes, added up in another order.
  rw [replacement, joiners, if_pos interleaved, ← whole,
    measure_weave Text.byteSize_nil Text.byteSize_append
      (by rw [length, pieces, List.length_map, sound.perm.length_eq]),
    measure_weave Text.byteSize_nil Text.byteSize_append (by rw [length, List.length_map]),
    pieces, ((sound.perm.map _).map _).sum_eq]

/-- A splice that changes its block changes the text. -/
theorem IsSound.applyTo?_ne (sound : arrangement.IsSound text) (some_unit : arrangement.source ≠ [])
    {result : Text} (applied : (arrangement.splice text).applyTo? text = some result)
    (changed : arrangement.replacement text ≠ text.slice arrangement.block.start arrangement.block.stop) :
    result ≠ text := by
  have fits := (sound.block_spec some_unit).1
  rw [Splice.applyTo?_of_fits fits, Option.some.injEq] at applied
  -- What stands before and behind the block is the same, so that the block would be the same as well.
  rintro rfl
  have parts := Text.slice_parts fits.starts fits.stops fits.ordered
  exact changed (List.append_cancel_left (List.append_cancel_right (applied.trans parts)))

end Sound

end Arrangement

/-- A text that leads from another one by a splice which puts units in a new order. -/
structure IsRendering (text : Text) (units target : List CallableUnit) (splice : Splice)
    (joiners : List Text) (result : Text) : Prop where
  /-- The splice starts with the first of the units. -/
  starts : (∃ unit ∈ units, splice.span.start = unit.fullStart) ∧
    ∀ unit ∈ units, splice.span.start ≤ unit.fullStart
  /-- The splice stops with the last of the units. -/
  stops : (∃ unit ∈ units, splice.span.stop = unit.span.stop) ∧
    ∀ unit ∈ units, unit.span.stop ≤ splice.span.stop
  /-- Every unit has a text, from its first comment through its end. -/
  slices : ∀ unit ∈ units, text.slice? unit.fullStart unit.span.stop = some (unit.text text)
  /-- The units stand in the order of the text, each but the first behind a gap. -/
  text_eq : text = text.slice 0 splice.span.start ++
    (List.zipWith (· ++ ·) ([] :: Arrangement.gapsBetween text (inSourceOrder units))
      ((inSourceOrder units).map (·.text text))).flatten ++
    text.slice splice.span.stop text.byteSize
  /-- The units come to stand in their new order, each but the first behind a joiner. -/
  result_eq : result = text.slice 0 splice.span.start ++
    (List.zipWith (· ++ ·) ([] :: joiners) (target.map (·.text text))).flatten ++
    text.slice splice.span.stop text.byteSize
  /-- There is one joiner between each two units. -/
  length_joiners : joiners.length + 1 = units.length
  /-- If something other than blanks stands between the units, all that stands there stays. -/
  keeps : (∃ gap ∈ Arrangement.gapsBetween text (inSourceOrder units), ¬ gap.isBlankText) →
    joiners = Arrangement.gapsBetween text (inSourceOrder units) ∧ result.byteSize = text.byteSize
  /-- If there are only blanks between the units, all joiners are the same blanks. -/
  separates : (∀ gap ∈ Arrangement.gapsBetween text (inSourceOrder units), gap.isBlankText) →
    ∃ separator : Text, separator.isBlankText ∧ ∀ joiner ∈ joiners, joiner = separator
  /-- Something has changed. -/
  changes : result ≠ text

/--
A planned splice covers the units from the first to the last, and puts them in the order of the names.

The units keep their texts, and what stands between them stays where it is unless it is blank
throughout.
-/
theorem isRendering_of_plan {text : Text} {units : List CallableUnit} {order : List String}
    {splice : Splice} (planned : plan text units order = .ok (some splice)) :
    ∃ target joiners result, target.Perm units ∧ target.map (·.name) = order ∧
      splice.applyTo? text = some result ∧ IsRendering text units target splice joiners result := by
  obtain ⟨arrangement, arranged, some_unit, rfl, _, changed⟩ := exists_arrangement_of_plan planned
  obtain ⟨placed, _, sorted, _, perm, named⟩ := arrange_eq_ok_iff.1 arranged
  obtain ⟨sound, same⟩ := isSound_of_arrange arranged
  obtain ⟨fits, _, whole⟩ := sound.block_spec some_unit
  have length : (arrangement.joiners text).length + 1 = units.length := by
    rw [Arrangement.length_joiners, Arrangement.length_gaps some_unit, same.length_eq]
  have applied : (arrangement.splice text).applyTo? text = some _ := Splice.applyTo?_of_fits fits
  refine ⟨arrangement.target, arrangement.joiners text, _, perm, named, applied, ?_⟩
  have member : ∀ {unit}, unit ∈ arrangement.source ↔ unit ∈ units := same.mem_iff
  obtain ⟨⟨first, isFirst, start⟩, last, isLast, stop⟩ := Arrangement.block_ends some_unit
  -- The clauses of the envelope come from the block, and those of the text from how the pieces are woven.
  constructor
  case starts =>
    exact ⟨⟨first, member.1 isFirst, start⟩, fun unit isUnit => (sound.within_block (member.2 isUnit)).1⟩
  case stops =>
    exact ⟨⟨last, member.1 isLast, stop⟩, fun unit isUnit => (sound.within_block (member.2 isUnit)).2⟩
  case slices =>
    intro unit isUnit
    have full := (placed unit isUnit).fullSpan_fits
    exact Text.slice?_eq full.starts full.stops full.ordered
  case text_eq =>
    rw [← sorted, ← weave_eq_flatten (by rw [List.length_map]; exact Arrangement.length_gaps some_unit text)]
    conv_lhs => rw [Text.slice_parts fits.starts fits.stops fits.ordered, ← whole]
    rfl
  case result_eq =>
    rw [← weave_eq_flatten (by rw [length, List.length_map, perm.length_eq])]
    rfl
  case length_joiners => exact length
  case keeps =>
    rw [← sorted]
    intro ink
    have interleaved := Arrangement.isInterleaved_iff.2 ink
    refine ⟨if_pos interleaved, ?_⟩
    -- The block is as long as it was, and the rest of the text is the same.
    conv_rhs => rw [Text.slice_parts fits.starts fits.stops fits.ordered]
    simp only [Text.byteSize_append, Arrangement.splice, sound.byteSize_replacement some_unit interleaved]
  case separates =>
    rw [← sorted]
    intro blank
    -- Blank gaps make an arrangement that is not interleaved, whose joiners are all the separator.
    have notInterleaved : ¬ arrangement.isInterleaved text := by
      rw [Arrangement.isInterleaved_iff]
      rintro ⟨gap, isGap, ink⟩
      exact ink (blank gap isGap)
    refine ⟨text.separator arrangement.block.start, text.isBlankText_separator _, ?_⟩
    rw [Arrangement.joiners, if_neg notInterleaved]
    simp
  case changes => exact sound.applyTo?_ne some_unit applied changed

/-! A function with a comment, some other text and a function that is to come first. -/

namespace Sample

/-- The text with the two functions and what stands around and between them. -/
def mixed : Text :=
  "é;/*b*/b;x;ça;z".toList

/-- The function with a comment. -/
def commented : CallableUnit :=
  ⟨"b", .expression, ⟨8, 10⟩, [⟨3, 8⟩], []⟩

/-- The function behind it. -/
def plain : CallableUnit :=
  ⟨"a", .expression, ⟨12, 16⟩, [], []⟩

/-- The splice that puts the second function first. -/
def mixedSplice : Splice :=
  ⟨⟨3, 16⟩, "ça;x;/*b*/b;".toList⟩

/-- The text with the second function first. -/
def mixedResult : Text :=
  "é;ça;x;/*b*/b;z".toList

/-- The unit with a comment stands first in the text, though it is listed last. -/
theorem inSourceOrder_mixed : inSourceOrder [plain, commented] = [commented, plain] := by
  simp [inSourceOrder, List.mergeSort, plain, commented, CallableUnit.fullStart]

/-- The two units can change places. -/
theorem arrange_mixed : arrange mixed [plain, commented] ["a", "b"] =
    .ok ⟨[commented, plain], [plain, commented]⟩ := by
  rw [arrange_eq_ok_iff, inSourceOrder_mixed]
  exact ⟨by decide +kernel, by decide, rfl, by decide, .refl _, rfl⟩

/-- The splice makes them do so. -/
theorem plan_mixed : plan mixed [plain, commented] ["a", "b"] = .ok (some mixedSplice) := by
  rw [plan_eq (by simp), arrange_mixed]
  decide +kernel

/-- Making the splice gives the new text. -/
theorem applyTo?_mixedSplice : mixedSplice.applyTo? mixed = some mixedResult := by
  decide +kernel

end Sample

/-- In the sample the functions change places around what stands between them. -/
theorem isRendering_of_plan_sample :
    plan Sample.mixed [Sample.plain, Sample.commented] ["a", "b"] = .ok (some Sample.mixedSplice) ∧
    Sample.mixedSplice.applyTo? Sample.mixed = some Sample.mixedResult ∧
    ∃ target joiners, target.map (·.name) = ["a", "b"] ∧
      IsRendering Sample.mixed [Sample.plain, Sample.commented] target Sample.mixedSplice joiners
        Sample.mixedResult := by
  obtain ⟨target, joiners, result, _, named, applied, rendering⟩ := isRendering_of_plan Sample.plan_mixed
  rw [Sample.applyTo?_mixedSplice, Option.some.injEq] at applied
  rw [← applied] at rendering
  exact ⟨Sample.plan_mixed, Sample.applyTo?_mixedSplice, target, joiners, named, rendering⟩

end CallersFirst
