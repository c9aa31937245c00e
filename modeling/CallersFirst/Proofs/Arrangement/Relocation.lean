import CallersFirst.Proofs.Arrangement.Rendering

/-! Units moved along with their texts: what is in order stays so, and what was moved can be put back. -/

namespace CallersFirst

/-- A span moved along as an old offset becomes a new one. -/
def Span.moved (span : Span) (old new : Nat) : Span :=
  ⟨span.start - old + new, span.stop - old + new⟩

/-- A unit moved, comments and all, so that it starts at an offset. -/
def CallableUnit.movedTo (unit : CallableUnit) (place : Nat) : CallableUnit :=
  { unit with
    span := unit.span.moved unit.fullStart place
    comments := unit.comments.map (·.moved unit.fullStart place) }

/-- A boundary inside a slice is still one where the slice comes to stand. -/
theorem Text.IsBoundary.moved {text : Text} {start stop offset : Nat} (boundary : text.IsBoundary offset)
    (starts : text.IsBoundary start) (stops : text.IsBoundary stop) (before : start ≤ offset)
    (behind : offset ≤ stop) (front back : Text) :
    Text.IsBoundary (front ++ text.slice start stop ++ back) (offset - start + front.byteSize) := by
  -- The slice is cut at the boundary, and its first part joins what stands in front.
  refine ⟨front ++ text.slice start offset, text.slice offset stop ++ back, ?_, ?_⟩
  · rw [← Text.slice_append_slice starts boundary stops before behind]
    simp
  · rw [Text.byteSize_append, Text.byteSize_slice starts boundary before]
    omega

/-- A span inside a slice still fits where the slice comes to stand. -/
theorem Span.Fits.moved {text : Text} {span outer : Span} (fits : span.Fits text) (outerFits : outer.Fits text)
    (inside : span.IsInside outer) (front back : Text) :
    (span.moved outer.start front.byteSize).Fits (front ++ text.slice outer.start outer.stop ++ back) := by
  have ordered := fits.ordered
  obtain ⟨starts, stops⟩ := inside
  refine ⟨?_, ?_, ?_⟩
  -- Both ends lie inside the slice, and offsets there move with it.
  · exact fits.starts.moved outerFits.starts outerFits.stops starts (by omega) front back
  · exact fits.stops.moved outerFits.starts outerFits.stops (by omega) stops front back
  · simp only [Span.moved]
    omega

namespace CallableUnit

section Moved

variable {text : Text} {unit : CallableUnit}

/-- A unit keeps its name wherever it is moved. -/
@[simp] theorem name_movedTo (unit : CallableUnit) (place : Nat) : (unit.movedTo place).name = unit.name := rfl

/-- A unit that is moved to a place starts there. -/
@[simp] theorem fullStart_movedTo (unit : CallableUnit) (place : Nat) :
    (unit.movedTo place).fullStart = place := by
  -- The smaller of two starts is still the smaller one after both have moved.
  unfold fullStart movedTo Span.moved
  cases shape : unit.comments with
  | nil => simp [fullStart, shape]
  | cons comment rest =>
    simp only [fullStart, shape, List.map_cons]
    omega

/-- A unit that is moved stops as far behind its start as before. -/
@[simp] theorem stop_movedTo (unit : CallableUnit) (place : Nat) :
    (unit.movedTo place).span.stop = place + unit.fullSpan.length := by
  simp only [movedTo, Span.moved, fullSpan, Span.length]
  omega

/-- No comment of a placed unit starts before the unit does. -/
theorem IsPlaced.fullStart_le_comment (placed : unit.IsPlaced text) {comment : Span}
    (member : comment ∈ unit.comments) : unit.fullStart ≤ comment.start := by
  -- The unit starts with its first comment or before, and the others come behind that one.
  have apart := placed.comments_apart
  have fits := placed.comments_fit
  unfold fullStart
  cases shape : unit.comments with
  | nil => simp [shape] at member
  | cons first rest =>
    rw [shape] at member apart fits
    have ordered := (fits first (List.mem_cons_self ..)).ordered
    simp only
    rcases List.mem_cons.1 member with rfl | later
    · omega
    · have behind := (List.pairwise_cons.1 apart).1 comment later
      omega

/-- A placed unit is still placed where its text comes to stand, and has the same text there. -/
theorem IsPlaced.movedTo (placed : unit.IsPlaced text) (front back : Text) :
    (unit.movedTo front.byteSize).IsPlaced (front ++ unit.text text ++ back) ∧
      (unit.movedTo front.byteSize).text (front ++ unit.text text ++ back) = unit.text text := by
  have full := placed.fullSpan_fits
  have start := unit.fullStart_le
  refine ⟨⟨?_, ?_, ?_, ?_⟩, ?_⟩
  · exact placed.fits.moved full ⟨start, Nat.le_refl _⟩ front back
  · -- The comments lie between the start of the unit and that of the definition.
    intro comment member
    obtain ⟨original, isComment, rfl⟩ := List.mem_map.1 member
    have before := placed.comments_before original isComment
    have ordered := placed.fits.ordered
    exact (placed.comments_fit original isComment).moved full
      ⟨placed.fullStart_le_comment isComment, by simp only [fullSpan]; omega⟩ front back
  -- Both comments and the definition move by the same distance.
  · refine List.pairwise_map.2 (placed.comments_apart.imp fun apart => ?_)
    simp only [Span.moved]
    omega
  · intro comment member
    obtain ⟨original, isComment, rfl⟩ := List.mem_map.1 member
    have before := placed.comments_before original isComment
    simp only [CallableUnit.movedTo, Span.moved]
    omega
  -- The text of the unit is where the front ends, as long as it was.
  · rw [CallableUnit.text, fullStart_movedTo, stop_movedTo]
    refine Text.slice_eq rfl rfl ?_
    have size : (unit.text text).byteSize = unit.fullSpan.length :=
      Text.byteSize_slice full.starts full.stops full.ordered
    rw [Text.byteSize_append, size]

end Moved

end CallableUnit

/-- Units that stand apart, none of them empty, are what sorting any listing of them gives. -/
theorem inSourceOrder_eq_of_perm {units listed : List CallableUnit} (perm : listed.Perm units)
    (apart : listed.Pairwise fun first second => first.span.stop ≤ second.fullStart)
    (filled : ∀ unit ∈ listed, unit.fullStart < unit.span.stop) : inSourceOrder units = listed := by
  -- No two units start at the same offset.
  have distinct : (listed.map (·.fullStart)).Nodup := by
    refine List.pairwise_map.2 (apart.imp_of_mem fun {first second} isFirst _ before => ?_)
    have := filled first isFirst
    omega
  have ordered : listed.Pairwise fun first second => first.fullStart ≤ second.fullStart := by
    refine apart.imp_of_mem fun {first second} isFirst _ before => ?_
    have := filled first isFirst
    omega
  have same : (inSourceOrder units).Perm listed := (inSourceOrder_perm units).trans perm.symm
  refine List.Perm.eq_of_pairwise (fun first second isFirst isSecond before behind => ?_)
    (pairwise_inSourceOrder units) ordered same
  exact List.inj_on_of_nodup_map distinct (same.mem_iff.1 isFirst) isSecond (Nat.le_antisymm before behind)

namespace Arrangement

/-- A unit moved to where its text stands in the rearranged text. -/
def relocate (arrangement : Arrangement) (text : Text) (unit : CallableUnit) : CallableUnit :=
  unit.movedTo ((Layout.place? text unit.fullSpan (arrangement.layout text)).getD 0)

/-- Each gap reaches from the end of one unit to the start of the next. -/
theorem getElem?_gapsBetween (text : Text) (units : List CallableUnit) (index : Nat) :
    (gapsBetween text units)[index]? = (do
      let first ← units[index]?
      let second ← units[index + 1]?
      return text.slice first.span.stop second.fullStart) := by
  induction units generalizing index with
  | nil => simp [gapsBetween]
  | cons first rest ih =>
    -- The first two units have the first gap between them, and the rest of the list has the others.
    cases rest with
    | nil => cases index <;> simp [gapsBetween]
    | cons second rest =>
      cases index with
      | zero => rfl
      | succ index => simpa [gapsBetween] using ih index

section Relocated

variable {text : Text} {arrangement : Arrangement} {unit : CallableUnit} {index : Nat}

/-- A unit keeps its name in the new text. -/
@[simp] theorem name_relocate (arrangement : Arrangement) (text : Text) (unit : CallableUnit) :
    (arrangement.relocate text unit).name = unit.name := rfl

/-- A unit that is not empty is moved to the stretch that holds it. -/
theorem IsSound.relocate_eq (sound : arrangement.IsSound text) (some_unit : arrangement.source ≠ [])
    (found : arrangement.target[index]? = some unit) (filled : unit.fullStart < unit.span.stop) :
    arrangement.relocate text unit =
      unit.movedTo (Layout.offset text (arrangement.layout text) (2 * index + 1)) := by
  have whole : unit.fullSpan.IsInside unit.fullSpan := ⟨Nat.le_refl _, Nat.le_refl _⟩
  rw [relocate, Layout.place?_eq (sound.isSound_layout some_unit).apart
    (sound.getElem?_layout some_unit found) whole filled, Option.getD_some, Nat.sub_self, Nat.add_zero]

/-- A moved unit is placed in the rearranged text, and has the text there that it had before. -/
theorem IsSound.isPlaced_relocate (sound : arrangement.IsSound text)
    (member : unit ∈ arrangement.source) (filled : unit.fullStart < unit.span.stop) :
    (arrangement.relocate text unit).IsPlaced (Layout.text text (arrangement.layout text)) ∧
      (arrangement.relocate text unit).text (Layout.text text (arrangement.layout text)) =
        unit.text text := by
  have some_unit := List.ne_nil_of_mem member
  obtain ⟨index, found⟩ := List.mem_iff_getElem?.1 (sound.perm.mem_iff.2 member)
  rw [sound.relocate_eq some_unit found filled, Layout.text_parts (sound.getElem?_layout some_unit found)]
  exact (sound.placed unit member).movedTo _ _

/-- A moved unit starts and stops with the stretch that holds it. -/
theorem IsSound.ends_relocate (sound : arrangement.IsSound text) (some_unit : arrangement.source ≠ [])
    (filled : ∀ unit ∈ arrangement.source, unit.fullStart < unit.span.stop)
    (found : arrangement.target[index]? = some unit) :
    (arrangement.relocate text unit).fullStart =
        Layout.offset text (arrangement.layout text) (2 * index + 1) ∧
      (arrangement.relocate text unit).span.stop =
        Layout.offset text (arrangement.layout text) (2 * index + 2) := by
  have member := sound.perm.mem_iff.1 (List.mem_of_getElem? found)
  have full := (sound.placed unit member).fullSpan_fits
  -- The unit is moved to where its stretch starts, and its text is as long as the stretch.
  rw [sound.relocate_eq some_unit found (filled unit member)]
  refine ⟨unit.fullStart_movedTo _, ?_⟩
  rw [unit.stop_movedTo, Layout.offset_succ (sound.getElem?_layout some_unit found), Stretch.text,
    Text.byteSize_slice full.starts full.stops full.ordered, Span.length]

/-- The moved units stand apart, in their new order. -/
theorem IsSound.relocated_apart (sound : arrangement.IsSound text) (some_unit : arrangement.source ≠ [])
    (filled : ∀ unit ∈ arrangement.source, unit.fullStart < unit.span.stop) :
    (arrangement.target.map (arrangement.relocate text)).Pairwise
      fun first second => first.span.stop ≤ second.fullStart := by
  refine List.pairwise_map.2 (List.pairwise_iff_getElem.2 fun first second isFirst isSecond before => ?_)
  -- The stretch of a later unit has a larger index.
  rw [(sound.ends_relocate some_unit filled (List.getElem?_eq_getElem isFirst)).2,
    (sound.ends_relocate some_unit filled (List.getElem?_eq_getElem isSecond)).1]
  exact Layout.offset_le_offset (by omega)

/-- The margin behind the unit of an index reads as the joiner of that index. -/
theorem IsSound.exists_stretch_of_joiner (sound : arrangement.IsSound text)
    (some_unit : arrangement.source ≠ []) {joiner : Text}
    (isJoiner : (arrangement.joiners text)[index]? = some joiner) :
    ∃ stretch, (arrangement.layout text)[2 * index + 2]? = some stretch ∧ stretch.text text = joiner := by
  have length : (arrangement.margins text).length = arrangement.target.length + 1 := by
    rw [length_margins some_unit, sound.perm.length_eq]
  -- The joiners are the texts of all margins but the first and the last.
  rw [← map_text_between, List.getElem?_map, Option.map_eq_some_iff] at isJoiner
  obtain ⟨stretch, isBetween, same⟩ := isJoiner
  refine ⟨stretch, ?_, same⟩
  rw [layout, show 2 * index + 2 = 2 * (index + 1) by omega, (getElem?_alternate length (index + 1)).1,
    margins, List.getElem?_cons_succ, List.getElem?_append_left (List.getElem?_eq_some_iff.1 isBetween).1,
    isBetween]

/-- Between the moved units stand the joiners. -/
theorem IsSound.gapsBetween_relocated (sound : arrangement.IsSound text) (some_unit : arrangement.source ≠ [])
    (filled : ∀ unit ∈ arrangement.source, unit.fullStart < unit.span.stop) :
    gapsBetween (Layout.text text (arrangement.layout text))
      (arrangement.target.map (arrangement.relocate text)) = arrangement.joiners text := by
  have length : (arrangement.joiners text).length + 1 = arrangement.target.length := by
    rw [length_joiners, length_gaps some_unit, sound.perm.length_eq]
  refine List.ext_getElem? fun index => ?_
  rw [getElem?_gapsBetween, List.getElem?_map, List.getElem?_map]
  by_cases inner : index < (arrangement.joiners text).length
  · -- The gap reaches from the stretch of one unit to that of the next.
    have isJoiner := List.getElem?_eq_getElem inner
    have isFirst := List.getElem?_eq_getElem (show index < arrangement.target.length by omega)
    have isSecond := List.getElem?_eq_getElem (show index + 1 < arrangement.target.length by omega)
    obtain ⟨stretch, isStretch, same⟩ := sound.exists_stretch_of_joiner some_unit isJoiner
    rw [isFirst, isSecond, isJoiner, ← same, ← Layout.slice_offset isStretch]
    simp only [Option.map_some, Option.bind_eq_bind, Option.bind_some, Option.pure_def,
      (sound.ends_relocate some_unit filled isFirst).2, (sound.ends_relocate some_unit filled isSecond).1]
    rfl
  · -- Behind the last unit there is neither a gap nor a joiner.
    have outside : arrangement.target[index + 1]? = none := List.getElem?_eq_none (by omega)
    rw [outside, List.getElem?_eq_none (Nat.le_of_not_lt inner)]
    simp

end Relocated

end Arrangement

section Plan

variable {text : Text} {units listed : List CallableUnit} {order : List String} {arrangement : Arrangement}

/-- In the rearranged text, the moved units can be arranged from the order they have into any other. -/
theorem arrange_relocated (arranged : arrange text units order = .ok arrangement)
    (some_unit : arrangement.source ≠ []) (filled : ∀ unit ∈ units, unit.fullStart < unit.span.stop)
    (perm : listed.Perm units) :
    arrange (Layout.text text (arrangement.layout text)) (units.map (arrangement.relocate text))
        (listed.map (·.name)) =
      .ok ⟨arrangement.target.map (arrangement.relocate text), listed.map (arrangement.relocate text)⟩ := by
  obtain ⟨sound, same⟩ := isSound_of_arrange arranged
  obtain ⟨_, _, _, distinct, targetPerm, _⟩ := arrange_eq_ok_iff.1 arranged
  have sourceFilled : ∀ unit ∈ arrangement.source, unit.fullStart < unit.span.stop :=
    fun unit member => filled unit (same.mem_iff.1 member)
  have placed : ∀ unit ∈ units, _ := fun unit member =>
    (sound.isPlaced_relocate (same.mem_iff.2 member) (filled unit member)).1
  have apart := sound.relocated_apart some_unit sourceFilled
  -- Moved units are as long as before, so that sorting gives the order in which they stand.
  have stillFilled : ∀ unit ∈ arrangement.target.map (arrangement.relocate text),
      unit.fullStart < unit.span.stop := by
    intro unit member
    obtain ⟨original, isTarget, rfl⟩ := List.mem_map.1 member
    have width := filled original (targetPerm.mem_iff.1 isTarget)
    simp only [Arrangement.relocate, CallableUnit.fullStart_movedTo, CallableUnit.stop_movedTo, Span.length,
      CallableUnit.fullSpan]
    omega
  -- Sorted by their new places, the units stand in the order of the target.
  have sorted := inSourceOrder_eq_of_perm (targetPerm.map _) apart stillFilled
  have names : ∀ listed : List CallableUnit,
      (listed.map (arrangement.relocate text)).map (·.name) = listed.map (·.name) := by simp
  refine arrange_eq_ok_iff.2 ⟨?_, sorted.symm ▸ apart, sorted.symm, ?_, perm.map _, names listed⟩
  · intro unit member
    obtain ⟨original, isUnit, rfl⟩ := List.mem_map.1 member
    exact placed original isUnit
  · rwa [names]

/--
A rearranged text is in order.

After a splice is made and the units are moved along with their texts, the same order asks for no further
splice.
-/
theorem plan_relocated {splice : Splice} (filled : ∀ unit ∈ units, unit.fullStart < unit.span.stop)
    (planned : plan text units order = .ok (some splice)) :
    ∃ arrangement result, arrange text units order = .ok arrangement ∧
      splice.applyTo? text = some result ∧
      (∀ unit ∈ units, (arrangement.relocate text unit).text result = unit.text text) ∧
      plan result (units.map (arrangement.relocate text)) order = .ok none := by
  obtain ⟨arrangement, arranged, some_unit, rfl, _⟩ := exists_arrangement_of_plan planned
  obtain ⟨sound, same⟩ := isSound_of_arrange arranged
  obtain ⟨_, _, _, _, perm, named⟩ := arrange_eq_ok_iff.1 arranged
  refine ⟨arrangement, _, arranged, sound.applyTo?_splice some_unit, fun unit member => ?_, ?_⟩
  · exact (sound.isPlaced_relocate (same.mem_iff.2 member) (filled unit member)).2
  · have some_moved : units.map (arrangement.relocate text) ≠ [] := by
      intro none
      exact some_unit (List.map_eq_nil_iff.1 none ▸ same).eq_nil
    -- The moved units stand in the order that is asked for.
    rw [plan_eq some_moved, ← named, arrange_relocated arranged some_unit filled perm]
    exact Arrangement.splice?_eq_none_iff.2 (.inl rfl)

end Plan

namespace Sample

/-- The two functions where they have come to stand, listed as before. -/
def mixedMoved : List CallableUnit :=
  [⟨"a", .expression, ⟨3, 7⟩, [], []⟩, ⟨"b", .expression, ⟨14, 16⟩, [⟨9, 14⟩], []⟩]

/-- The places of the two units in the new text. -/
theorem map_relocate_mixed : [plain, commented].map
    (Arrangement.relocate ⟨[commented, plain], [plain, commented]⟩ mixed) = mixedMoved := by
  decide +kernel

end Sample

/-- In the sample the second function comes first, and stays there. -/
theorem plan_relocated_sample :
    plan Sample.mixed [Sample.plain, Sample.commented] ["a", "b"] = .ok (some Sample.mixedSplice) ∧
    Sample.mixedSplice.applyTo? Sample.mixed = some Sample.mixedResult ∧
    plan Sample.mixedResult Sample.mixedMoved ["a", "b"] = .ok none := by
  obtain ⟨arrangement, result, arranged, applied, _, settled⟩ :=
    plan_relocated (by decide : ∀ unit ∈ [Sample.plain, Sample.commented], unit.fullStart < unit.span.stop)
      Sample.plan_mixed
  -- The arrangement, the result and the moved units are the ones the sample names.
  rw [Sample.arrange_mixed, Except.ok.injEq] at arranged
  rw [Sample.applyTo?_mixedSplice, Option.some.injEq] at applied
  rw [← arranged, Sample.map_relocate_mixed, ← applied] at settled
  exact ⟨Sample.plan_mixed, Sample.applyTo?_mixedSplice, settled⟩

namespace Arrangement

/-- The way back: the moved units, from their new order to the one they had. -/
def back (arrangement : Arrangement) (text : Text) : Arrangement :=
  ⟨arrangement.target.map (arrangement.relocate text), arrangement.source.map (arrangement.relocate text)⟩

section Back

variable {text : Text} {arrangement : Arrangement}

/-- The way back is sound in the rearranged text. -/
theorem IsSound.back (sound : arrangement.IsSound text) (some_unit : arrangement.source ≠ [])
    (filled : ∀ unit ∈ arrangement.source, unit.fullStart < unit.span.stop) :
    (arrangement.back text).IsSound (Layout.text text (arrangement.layout text)) := by
  refine ⟨fun unit member => ?_, sound.relocated_apart some_unit filled, sound.perm.symm.map _⟩
  obtain ⟨original, isTarget, rfl⟩ := List.mem_map.1 member
  have isSource := sound.perm.mem_iff.1 isTarget
  exact (sound.isPlaced_relocate isSource (filled original isSource)).1

/-- The block starts where it did. -/
theorem IsSound.start_back (sound : arrangement.IsSound text) (some_unit : arrangement.source ≠ [])
    (filled : ∀ unit ∈ arrangement.source, unit.fullStart < unit.span.stop) :
    (arrangement.back text).block.start = arrangement.block.start := by
  have fits := (sound.block_spec some_unit).1
  have length : (arrangement.margins text).length = arrangement.target.length + 1 := by
    rw [length_margins some_unit, sound.perm.length_eq]
  obtain ⟨lead, others, shape⟩ : ∃ lead others, arrangement.target = lead :: others :=
    List.exists_cons_of_ne_nil fun empty => some_unit (empty ▸ sound.perm).nil_eq.symm
  -- The first unit of the new order stands behind the front margin, which has not changed.
  have isFront : (arrangement.layout text)[0]? = some (.kept ⟨0, arrangement.block.start⟩) :=
    (getElem?_alternate length 0).1
  have isLead : arrangement.target[0]? = some lead := by simp [shape]
  have start : (arrangement.back text).block.start = (arrangement.relocate text lead).fullStart := by
    simp [block, Arrangement.back, shape]
  rw [start, (sound.ends_relocate some_unit filled isLead).1, Layout.offset_succ isFront, Stretch.text,
    Text.byteSize_slice text.isBoundary_zero fits.starts (Nat.zero_le _)]
  simp [Layout.offset, Layout.text]

/-- What the way back replaces is what was put in place. -/
theorem IsSound.slice_back (sound : arrangement.IsSound text) (some_unit : arrangement.source ≠ [])
    (filled : ∀ unit ∈ arrangement.source, unit.fullStart < unit.span.stop) :
    (Layout.text text (arrangement.layout text)).slice (arrangement.back text).block.start
      (arrangement.back text).block.stop = arrangement.replacement text := by
  have some_target : (arrangement.back text).source ≠ [] := fun empty =>
    some_unit (List.map_eq_nil_iff.1 empty ▸ sound.perm).nil_eq.symm
  obtain ⟨_, _, whole⟩ := (sound.back some_unit filled).block_spec some_target
  -- Both are the units in their new order with the joiners between them.
  rw [← whole, gaps, Arrangement.back, sound.gapsBetween_relocated some_unit filled, replacement, pieces,
    List.map_map]
  congr 1
  refine List.map_congr_left fun unit member => ?_
  have isSource := sound.perm.mem_iff.1 member
  exact (sound.isPlaced_relocate isSource (filled unit isSource)).2

/-- With all gaps kept, the way back puts in place what was there at first. -/
theorem IsSound.replacement_back (sound : arrangement.IsSound text) (some_unit : arrangement.source ≠ [])
    (filled : ∀ unit ∈ arrangement.source, unit.fullStart < unit.span.stop)
    (interleaved : arrangement.isInterleaved text) :
    (arrangement.back text).replacement (Layout.text text (arrangement.layout text)) =
      text.slice arrangement.block.start arrangement.block.stop := by
  obtain ⟨_, _, whole⟩ := sound.block_spec some_unit
  have sameGaps : (arrangement.back text).gaps (Layout.text text (arrangement.layout text)) =
      arrangement.gaps text := by
    rw [gaps, Arrangement.back, sound.gapsBetween_relocated some_unit filled, joiners, if_pos interleaved]
  -- The same gaps stand between the units, so that they are kept once more.
  have again : (arrangement.back text).isInterleaved (Layout.text text (arrangement.layout text)) := by
    rwa [isInterleaved, sameGaps]
  rw [replacement, joiners, if_pos again, sameGaps, ← whole, pieces, Arrangement.back, List.map_map]
  congr 1
  refine List.map_congr_left fun unit member => ?_
  exact (sound.isPlaced_relocate member (filled unit member)).2

/-- With all gaps kept, the way back leads to the text that was there at first. -/
theorem IsSound.applyTo?_back (sound : arrangement.IsSound text) (some_unit : arrangement.source ≠ [])
    (filled : ∀ unit ∈ arrangement.source, unit.fullStart < unit.span.stop)
    (interleaved : arrangement.isInterleaved text) :
    ((arrangement.back text).splice (Layout.text text (arrangement.layout text))).applyTo?
      (Layout.text text (arrangement.layout text)) = some text := by
  have fits := (sound.block_spec some_unit).1
  have some_target : (arrangement.back text).source ≠ [] := fun empty =>
    some_unit (List.map_eq_nil_iff.1 empty ▸ sound.perm).nil_eq.symm
  have backFits := ((sound.back some_unit filled).block_spec some_target).1
  have start := sound.start_back some_unit filled
  -- The rearranged text has the same parts before and behind the block as the text itself.
  have applied := sound.applyTo?_splice some_unit
  rw [Splice.applyTo?_of_fits fits, Option.some.injEq] at applied
  simp only [splice] at applied
  have parts := Text.slice_parts backFits.starts backFits.stops backFits.ordered
  rw [sound.slice_back some_unit filled, start] at parts
  have starts := backFits.starts
  rw [start] at starts
  have size : (text.slice 0 arrangement.block.start ++ arrangement.replacement text).byteSize =
      (Text.slice (Layout.text text (arrangement.layout text)) 0 arrangement.block.start ++
        arrangement.replacement text).byteSize := by
    rw [Text.byteSize_append, Text.byteSize_append,
      Text.byteSize_slice text.isBoundary_zero fits.starts (Nat.zero_le _),
      Text.byteSize_slice (Text.isBoundary_zero _) starts (Nat.zero_le _)]
  -- Texts of the same size in front of the block are the same, and so is what comes behind it.
  obtain ⟨joined, sameBehind⟩ := Text.append_inj_of_byteSize (applied.trans parts) size
  have sameFront := List.append_cancel_right joined
  rw [Splice.applyTo?_of_fits backFits, Option.some.injEq]
  simp only [splice, start, sound.replacement_back some_unit filled interleaved, ← sameBehind, ← sameFront]
  exact (Text.slice_parts fits.starts fits.stops fits.ordered).symm

end Back

end Arrangement

/--
A rearrangement around text that stays can be undone.

If something other than blanks stands between the units, then after a splice is made the order of the
source asks for one that gives back the text, unless a unit would run into what follows it.
-/
theorem plan_back {text : Text} {units : List CallableUnit} {order : List String} {splice : Splice}
    (filled : ∀ unit ∈ units, unit.fullStart < unit.span.stop)
    (planned : plan text units order = .ok (some splice))
    (ink : ∃ gap ∈ Arrangement.gapsBetween text (inSourceOrder units), ¬ gap.isBlankText) :
    ∃ arrangement result, arrange text units order = .ok arrangement ∧
      splice.applyTo? text = some result ∧
      (∀ unit ∈ units, (arrangement.relocate text unit).text result = unit.text text) ∧
      ((∃ undo, plan result (units.map (arrangement.relocate text))
          ((inSourceOrder units).map (·.name)) = .ok (some undo) ∧ undo.applyTo? result = some text) ∨
        ∃ name, plan result (units.map (arrangement.relocate text))
          ((inSourceOrder units).map (·.name)) = .error (.unterminatedUnit name)) := by
  obtain ⟨arrangement, arranged, some_unit, rfl, moved, changed⟩ := exists_arrangement_of_plan planned
  obtain ⟨sound, same⟩ := isSound_of_arrange arranged
  obtain ⟨_, _, sorted, _, perm, named⟩ := arrange_eq_ok_iff.1 arranged
  rw [← sorted] at ink ⊢
  have sourceFilled : ∀ unit ∈ arrangement.source, unit.fullStart < unit.span.stop :=
    fun unit member => filled unit (same.mem_iff.1 member)
  have interleaved := Arrangement.isInterleaved_iff.2 ink
  have some_moved : units.map (arrangement.relocate text) ≠ [] := by
    intro none
    exact some_unit (List.map_eq_nil_iff.1 none ▸ same).eq_nil
  refine ⟨arrangement, _, arranged, sound.applyTo?_splice some_unit, fun unit member => ?_, ?_⟩
  · exact (sound.isPlaced_relocate (same.mem_iff.2 member) (filled unit member)).2
  -- The moved units are arranged on the way back.
  rw [plan_eq some_moved, arrange_relocated arranged some_unit filled same]
  change (∃ undo, (arrangement.back text).splice? _ = _ ∧ _) ∨ ∃ name, (arrangement.back text).splice? _ = _
  rcases (arrangement.back text).splice?_cases (Layout.text text (arrangement.layout text)) with
    none | found | refused
  · -- Neither the order nor the text stays the same on the way back, since neither did before.
    rcases Arrangement.splice?_eq_none_iff.1 none with sameOrder | sameText
    · refine absurd ?_ moved
      simpa [Arrangement.back, named, Function.comp_def] using sameOrder.symm
    · rw [sound.replacement_back some_unit sourceFilled interleaved,
        sound.slice_back some_unit sourceFilled] at sameText
      exact absurd sameText.symm changed
  · exact .inl ⟨_, found, sound.applyTo?_back some_unit sourceFilled interleaved⟩
  · exact .inr refused

/-- In the sample the first function can be put back, unless it would run on. -/
theorem plan_back_sample :
    (∃ gap ∈ Arrangement.gapsBetween Sample.mixed [Sample.commented, Sample.plain], ¬ gap.isBlankText) ∧
    ((∃ undo, plan Sample.mixedResult Sample.mixedMoved ["b", "a"] = .ok (some undo) ∧
        undo.applyTo? Sample.mixedResult = some Sample.mixed) ∨
      ∃ name, plan Sample.mixedResult Sample.mixedMoved ["b", "a"] = .error (.unterminatedUnit name)) := by
  have ink : ∃ gap ∈ Arrangement.gapsBetween Sample.mixed [Sample.commented, Sample.plain],
      ¬ gap.isBlankText := by decide +kernel
  obtain ⟨arrangement, result, arranged, applied, _, undone⟩ :=
    plan_back (by decide : ∀ unit ∈ [Sample.plain, Sample.commented], unit.fullStart < unit.span.stop)
      Sample.plan_mixed (Sample.inSourceOrder_mixed.symm ▸ ink)
  -- The arrangement, the result and the moved units are the ones the sample names.
  rw [Sample.arrange_mixed, Except.ok.injEq] at arranged
  rw [Sample.applyTo?_mixedSplice, Option.some.injEq] at applied
  rw [← arranged, Sample.map_relocate_mixed, ← applied, Sample.inSourceOrder_mixed] at undone
  exact ⟨ink, undone⟩

end CallersFirst
